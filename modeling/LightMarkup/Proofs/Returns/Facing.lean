import LightMarkup.Proofs.Paragraph.Lines
import LightMarkup.Proofs.Pattern.Isolating

/-!
Texts whose lines end with a carriage return and a newline, and the places of a text and of the text with carriage returns.
Each place of the first has the same in the second, and where a line ends there is one more, between the carriage return and
the newline.
-/

namespace LightMarkup

namespace Text

-- A carriage return before every newline.
def withReturns : Text → Text
  | [] => []
  | x :: rest => if x = '\n' then '\r' :: '\n' :: withReturns rest else x :: withReturns rest

variable {t u : Text} {x : Char}

theorem withReturns_newline (rest : Text) : withReturns ('\n' :: rest) = '\r' :: '\n' :: withReturns rest := rfl

theorem withReturns_cons (other : x ≠ '\n') (rest : Text) : withReturns (x :: rest) = x :: withReturns rest := by
  rw [withReturns,if_neg other]

theorem withReturns_append (t u : Text) : withReturns (t ++ u) = withReturns t ++ withReturns u := by
  induction t with
  | nil => rfl
  | cons x t ih =>
    by_cases newline : x = '\n'
    · rw [newline,List.cons_append,withReturns_newline,withReturns_newline,ih]
      rfl
    · rw [List.cons_append,withReturns_cons newline,withReturns_cons newline,ih,List.cons_append]

theorem withReturns_free (free : '\n' ∉ t) : withReturns t = t := by
  induction t with
  | nil => rfl
  | cons x t ih =>
    obtain ⟨other,free⟩ := List.ne_and_not_mem_of_not_mem_cons free
    rw [withReturns_cons other.symm,ih free]

theorem all_withReturns {p : Char → Bool} (newline : p '\n' = true) (return_ : p '\r' = true) (t : Text) :
    (withReturns t).all p = t.all p := by
  induction t with
  | nil => rfl
  | cons x t ih =>
    by_cases same : x = '\n'
    · rw [same,withReturns_newline,List.all_cons,List.all_cons,List.all_cons,ih,newline,return_]
      rfl
    · rw [withReturns_cons same,List.all_cons,List.all_cons,ih]

theorem isAllBlank_withReturns (t : Text) : isAllBlank (withReturns t) = isAllBlank t :=
  all_withReturns rfl rfl t

theorem withReturns_nil : withReturns t = [] ↔ t = [] := by
  refine ⟨fun none => ?_,fun none => by rw [none]; rfl⟩
  cases t with
  | nil => rfl
  | cons x t =>
    rw [withReturns] at none
    split at none <;> cases none

theorem lines_other (isBreak : isLineBreak x = true) (other : x ≠ '\r') (rest : Text) : lines (x :: rest) = [] :: lines rest := by
  rw [lines]
  · exact if_pos isBreak
  · rintro _ rfl
    exact absurd rfl other

theorem lines_withReturns (free : '\r' ∉ t) : lines (withReturns t) = lines t := by
  induction t with
  | nil => rfl
  | cons x t ih =>
    obtain ⟨other,later⟩ := List.ne_and_not_mem_of_not_mem_cons free
    by_cases newline : x = '\n'
    · rw [newline,withReturns_newline,lines,ih later,lines_other rfl (by decide)]
    · rw [withReturns_cons newline]
      cases isBreak : isLineBreak x with
      | true => rw [lines_other isBreak other.symm,lines_other isBreak other.symm,ih later]
      | false => rw [lines_cons isBreak,lines_cons isBreak,ih later]

end Text

open Text (withReturns)

-- What lies before a place of a text, and of the text with carriage returns or of what is left of it behind the first one;
-- the nearest character first.
inductive Behind : Text → Text → Prop where
  | start : Behind [] []
  | inner {x : Char} {b b' : Text} (newline : x ≠ '\n') (return_ : x ≠ '\r') (behind : Behind b b') :
      Behind (x :: b) (x :: b')
  | line {b b' : Text} (behind : Behind b b') : Behind ('\n' :: b) ('\n' :: '\r' :: b')
  | cut : Behind ['\n'] ['\n']

namespace Cursor

-- The same place in the two texts.
structure Level (c c' : Cursor) : Prop where
  behind : Behind c.before c'.before
  ahead : c'.after = withReturns c.after
  free : '\r' ∉ c.after

-- Before a newline, and behind the carriage return before it.
structure Between (c c' : Cursor) (rest : Text) : Prop where
  newline : c.after = '\n' :: rest
  ahead : c'.after = '\n' :: withReturns rest
  free : '\r' ∉ rest
  behind : Behind ('\n' :: c.before) ('\n' :: c'.before)

def Facing (c c' : Cursor) : Prop :=
  Level c c' ∨ ∃ rest, Between c c' rest

variable {c c' : Cursor} {rest : Text}

theorem Level.facing (level : Level c c') : Facing c c' :=
  Or.inl level

theorem Between.facing (between : Between c c' rest) : Facing c c' :=
  Or.inr ⟨rest,between⟩

theorem Between.next (between : Between c c' rest) : Level (c.past 1) (c'.past 1) where
  behind := by simpa [past,between.newline,between.ahead] using between.behind
  ahead := by simp [between.newline,between.ahead]
  free := by simpa [between.newline] using between.free

theorem Level.inner {x : Char} (level : Level c c') (begins : c.after = x :: rest) (newline : x ≠ '\n') :
    c'.after = x :: withReturns rest ∧ Level (c.past 1) (c'.past 1) := by
  have ahead : c'.after = x :: withReturns rest := by rw [level.ahead,begins,Text.withReturns_cons newline]
  obtain ⟨return_,free⟩ := List.ne_and_not_mem_of_not_mem_cons (begins ▸ level.free)
  refine ⟨ahead,?_,?_,?_⟩
  · simpa [past,begins,ahead] using Behind.inner newline return_.symm level.behind
  · simp [begins,ahead]
  · simpa [begins] using free

theorem Level.newline (level : Level c c') (begins : c.after = '\n' :: rest) :
    c'.after = '\r' :: '\n' :: withReturns rest ∧ Between c (c'.past 1) rest := by
  have ahead : c'.after = '\r' :: '\n' :: withReturns rest := by rw [level.ahead,begins,Text.withReturns_newline]
  obtain ⟨_,free⟩ := List.ne_and_not_mem_of_not_mem_cons (begins ▸ level.free)
  refine ⟨ahead,begins,by simp [ahead],free,?_⟩
  simpa [past,ahead] using Behind.line level.behind

-- At the end, before a character inside a line, before a newline and its carriage return, and between these.
inductive Ahead (c c' : Cursor) : Prop where
  | ended (none : c.after = []) (none' : c'.after = []) (level : Level c c')
  | inner {x : Char} {rest : Text} (newline : x ≠ '\n') (return_ : x ≠ '\r') (begins : c.after = x :: rest)
      (begins' : c'.after = x :: withReturns rest) (next : Level (c.past 1) (c'.past 1))
  | newline {rest : Text} (begins : c.after = '\n' :: rest) (begins' : c'.after = '\r' :: '\n' :: withReturns rest)
      (between : Between c (c'.past 1) rest)
  | between {rest : Text} (begins : c.after = '\n' :: rest) (begins' : c'.after = '\n' :: withReturns rest)
      (next : Level (c.past 1) (c'.past 1))

theorem Facing.ahead (facing : Facing c c') : Ahead c c' := by
  rcases facing with level | ⟨rest,between⟩
  · cases begins : c.after with
    | nil => exact .ended begins (by rw [level.ahead,begins]; rfl) level
    | cons x rest =>
      by_cases newline : x = '\n'
      · subst newline
        obtain ⟨begins',between⟩ := level.newline begins
        exact .newline begins begins' between
      · obtain ⟨begins',next⟩ := level.inner begins newline
        have return_ : x ≠ '\r' := fun same => level.free (by rw [begins,same]; exact List.mem_cons_self ..)
        exact .inner newline return_ begins begins' next
  · exact .between between.newline between.ahead between.next

-- From one place to the next: behind a character, and behind a newline and its carriage return, the places are the same.
theorem facing_induct {P : (c c' : Cursor) → Facing c c' → Prop}
    (step : ∀ {c c'} (facing : Facing c c'),
      (c.after ≠ [] → ∀ {d'} (level : Level (c.past 1) d'), P (c.past 1) d' level.facing) → P c c' facing) :
    ∀ {c c'} (facing : Facing c c'), P c c' facing := by
  have all : ∀ n, ∀ {c c'} (facing : Facing c c'), c.after.length ≤ n → P c c' facing := by
    intro n
    induction n with
    | zero =>
      intro c c' facing none
      exact step facing fun some => absurd (List.length_eq_zero_iff.mp (Nat.le_zero.mp none)) some
    | succ n ih =>
      intro c c' facing bound
      refine step facing fun some d' level => ih level.facing ?_
      have positive := List.length_pos_iff.mpr some
      rw [past_after,List.length_drop]
      omega
  intro c c' facing
  exact all _ facing (Nat.le_refl _)

theorem Level.ended (level : Level c c') : c.after = [] ↔ c'.after = [] := by
  rw [level.ahead,Text.withReturns_nil]

theorem Facing.ended (facing : Facing c c') : c.after = [] ↔ c'.after = [] := by
  rcases facing with level | ⟨rest,between⟩
  · exact level.ended
  · simp [between.newline,between.ahead]

theorem level_start {t : Text} (free : '\r' ∉ t) : Level (.start t) (.start (withReturns t)) :=
  ⟨.start,rfl,free⟩

-- A text that is cut behind its first carriage return.
theorem between_start (free : '\r' ∉ rest) : Between (.start ('\n' :: rest)) (.start ('\n' :: withReturns rest)) rest :=
  ⟨rfl,rfl,free,.cut⟩

theorem Level.isLineStart (level : Level c c') : Pattern.isLineStart c = Pattern.isLineStart c' := by
  obtain ⟨b,a⟩ := c
  obtain ⟨b',a'⟩ := c'
  cases level.behind <;> rfl

end Cursor
end LightMarkup
