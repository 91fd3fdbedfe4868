import LightMarkup.Proofs.Pattern.Isolating
import LightMarkup.Proofs.Returns.Facing

/-!
Matching a text and the text with carriage returns. What is left to match after a place tells the two apart more or less,
and a pattern turns one kind of rest into another: most leave it as it is, the end of a line is seen behind the carriage
return only, and an optional carriage return leads there. So the kind is found by going through a pattern from its end.
-/

namespace LightMarkup
namespace Pattern

open Text (withReturns)
open Cursor (Facing)

-- The same group, which if it is one of `exact` does not begin or end behind a carriage return.
structure CaptureFaces (exact : List Nat) (k k' : Capture) : Prop where
  group : k.group = k'.group
  start : Facing k.start k'.start
  stop : Facing k.stop k'.stop
  level : k.group ∈ exact → k.start.Level k'.start ∧ k.stop.Level k'.stop

abbrev CapturesFace (exact : List Nat) : Captures → Captures → Prop :=
  List.Forall₂ (CaptureFaces exact)

-- What is left to match finds the same at all places, and besides nothing at the end of a line; it finds the same at all
-- places; it does, but the groups that it captures are the same where no carriage return has been read only; or it may find
-- nothing before a carriage return, and the same elsewhere.
inductive Accord where
  | apart
  | same
  | level
  | loose
  deriving DecidableEq

namespace Accord

def le : Accord → Accord → Bool
  | .apart, _ => true
  | .same, l => l != .apart
  | k, l => k == l

def join? (k l : Accord) : Option Accord :=
  if k.le l then some l else if l.le k then some k else none

-- The kind that is left if captures do not count.
def blind : Accord → Accord
  | .level => .same
  | k => k

def Meets : Accord → Cursor → Cursor → Prop
  | .level, c, c' => c.Level c'
  | .loose, c, c' => Facing c c' ∧ c'.after.head? ≠ some '\r'
  | _, c, c' => Facing c c'

theorem le_join {k l m : Accord} (joined : k.join? l = some m) : k.le m = true ∧ l.le m = true := by
  cases k <;> cases l <;> cases joined <;> decide

theorem le_blind {k l : Accord} (le : k.le l = true) : k.blind.le l.blind = true := by
  cases k <;> cases l <;> first | rfl | cases le

theorem blind_of {k : Accord} (other : k ≠ .level) : k.blind = k := by
  cases k <;> first | rfl | exact absurd rfl other

theorem blind_le (k : Accord) : k.blind.le k = true := by
  cases k <;> rfl

variable {k l : Accord} {c c' : Cursor}

theorem Meets.facing (meets : k.Meets c c') : Facing c c' := by
  cases k with
  | level => exact Cursor.Level.facing meets
  | loose => exact meets.1
  | apart | same => exact meets

theorem Meets.mono (le : k.le l = true) (meets : l.Meets c c') : k.Meets c c' := by
  cases k <;> cases l <;> first | exact meets | exact meets.facing | cases le

theorem meets_level (level : c.Level c') (some : k ≠ .loose) : k.Meets c c' := by
  cases k with
  | loose => exact absurd rfl some
  | level => exact level
  | apart | same => exact level.facing

end Accord

theorem rel_none {α : Type} {R : α → α → Prop} {a a' : Option α} (rel : Option.Rel R a a') (none : a = none) :
    a' = .none := by
  subst none
  cases rel
  rfl

theorem rel_some {α : Type} {R : α → α → Prop} {a : α} {b : Option α} (rel : Option.Rel R (some a) b) :
    ∃ a', b = some a' ∧ R a a' := by
  cases rel with
  | some related => exact ⟨_,rfl,related⟩

theorem rel_or {α : Type} {R : α → α → Prop} {a a' b b' : Option α} (one : Option.Rel R a a') (two : Option.Rel R b b') :
    Option.Rel R (a.or b) (a'.or b') := by
  cases one with
  | none => exact two
  | some related => exact .some related

theorem rel_if {α : Type} {R : α → α → Prop} {a a' : Option α} (holds : Bool) (rel : Option.Rel R a a') :
    Option.Rel R (if holds then a else none) (if holds then a' else none) := by
  cases holds with
  | true => exact rel
  | false => exact .none

-- A second one that finds nothing where the first finds nothing is not needed.
theorem rel_twice {α : Type} {R : α → α → Prop} {a a' b : Option α} (one : Option.Rel R a a') (two : a = none → b = none) :
    Option.Rel R a (a'.or b) := by
  cases one with
  | none => rw [two rfl]; exact .none
  | some related => exact .some related

-- A relation of captures that does not end when a group is captured.
def Closed₂ (exact : List Nat) (C : Captures → Captures → Prop) : Prop :=
  ∀ {k k' g g'}, CaptureFaces exact k k' → C g g' → C (k :: g) (k' :: g')

def Anyhow {α : Type} (_ _ : α) : Prop := True

theorem closed_anyhow (exact : List Nat) : Closed₂ exact Anyhow :=
  fun _ _ => trivial

theorem closed_face (exact : List Nat) : Closed₂ exact (CapturesFace exact) :=
  fun here others => .cons here others

variable {α : Type} {exact : List Nat} {C : Captures → Captures → Prop} {R : α → α → Prop} {rest rest' : Rest α}
  {k l : Accord} {p q : Pattern} {c c' : Cursor} {g g' : Captures}

structure Agree (C : Captures → Captures → Prop) (R : α → α → Prop) (rest rest' : Rest α) (k : Accord) : Prop where
  meets : ∀ {c c' g g'}, k.Meets c c' → C g g' → Option.Rel R (rest c g) (rest' c' g')
  dead : k ≠ .level → ∀ {c c' g g'}, Facing c c' → C g g' → rest c g = none → rest' c' g' = none
  apart : k = .apart → ∀ {c g}, c.after.head? = some '\n' → rest c g = none

-- They agree, and whether they find anything does not depend on what has been captured.
structure Agrees (C : Captures → Captures → Prop) (R : α → α → Prop) (rest rest' : Rest α) (k : Accord) : Prop where
  blind : Agree Anyhow Anyhow rest rest' k.blind
  agree : Agree C R rest rest' k

namespace Agree

theorem of_same (same : ∀ {c c' g g'}, Facing c c' → C g g' → Option.Rel R (rest c g) (rest' c' g')) :
    Agree C R rest rest' .same where
  meets := same
  dead _ _ _ _ _ facing captures := rel_none (same facing captures)
  apart isApart := nomatch isApart

theorem mono (le : k.le l = true) (agree : Agree C R rest rest' k) : Agree C R rest rest' l where
  meets meets := agree.meets (meets.mono le)
  dead other := agree.dead fun isLevel => by
    subst isLevel
    cases l <;> first | exact other rfl | cases le
  apart isApart := agree.apart (by subst isApart; cases k <;> first | rfl | cases le)

theorem or {one one' two two' : Rest α} (left : Agree C R one one' k) (right : Agree C R two two' k) :
    Agree C R (fun c g => (one c g).or (two c g)) (fun c g => (one' c g).or (two' c g)) k where
  meets meets captures := rel_or (left.meets meets captures) (right.meets meets captures)
  dead other _ _ _ _ facing captures none := by
    obtain ⟨first,second⟩ := Option.or_eq_none_iff.mp none
    exact Option.or_eq_none_iff.mpr ⟨left.dead other facing captures first,right.dead other facing captures second⟩
  apart isApart _ _ newline := Option.or_eq_none_iff.mpr ⟨left.apart isApart newline,right.apart isApart newline⟩

end Agree

namespace Agrees

theorem mono (le : k.le l = true) (agrees : Agrees C R rest rest' k) : Agrees C R rest rest' l :=
  ⟨agrees.blind.mono (Accord.le_blind le),agrees.agree.mono le⟩

theorem or {one one' two two' : Rest α} (left : Agrees C R one one' k) (right : Agrees C R two two' k) :
    Agrees C R (fun c g => (one c g).or (two c g)) (fun c g => (one' c g).or (two' c g)) k :=
  ⟨left.blind.or right.blind,left.agree.or right.agree⟩

-- Captures do not count where nothing is found.
theorem none (agrees : Agrees C R rest rest' k) (facing : Facing c c') (none : rest c g = none) (g' : Captures) :
    rest' c' g' = .none :=
  agrees.blind.dead (by cases k <;> decide) facing trivial none

end Agrees

-- A pattern with what is left to match after it.
def followed (p : Pattern) (rest : Rest α) : Rest α :=
  fun c g => firstWay (p.ways c) g rest

def Turns (exact : List Nat) (p : Pattern) (k l : Accord) : Prop :=
  ∀ ⦃α : Type⦄ ⦃C : Captures → Captures → Prop⦄ ⦃R : α → α → Prop⦄ ⦃rest rest' : Rest α⦄, Closed₂ exact C →
    Agrees C R rest rest' k → Agrees C R (p.followed rest) (p.followed rest') l

-- If captures do not matter for it.
theorem turns_of (other : l ≠ .level) (turns : ∀ {α : Type} {C : Captures → Captures → Prop} {R : α → α → Prop}
    {rest rest' : Rest α}, Agree C R rest rest' k → Agree C R (p.followed rest) (p.followed rest') l) : p.Turns exact k l := by
  intro α C R rest rest' _ agrees
  refine ⟨?_,turns agrees.agree⟩
  rw [Accord.blind_of other]
  exact turns (agrees.blind.mono k.blind_le)

theorem Turns.weaken {m : Accord} (turns : p.Turns exact k l) (le : m.le k = true) : p.Turns exact m l :=
  fun _ _ _ _ _ closed agrees => turns closed (agrees.mono le)

theorem followed_seq (p q : Pattern) (rest : Rest α) : (p ++ q).followed rest = p.followed (q.followed rest) := by
  funext c g
  exact firstWay_then _ _ _ _

theorem followed_choice (p q : Pattern) (rest : Rest α) :
    (p.choice q).followed rest = fun c g => (p.followed rest c g).or (q.followed rest c g) := by
  funext c g
  exact firstWay_append _ _ _ _

theorem followed_empty (rest : Rest α) : Pattern.empty.followed rest = rest := by
  funext c g
  exact firstWay_one c g rest

theorem followed_maybe (p : Pattern) (rest : Rest α) :
    (maybe p).followed rest = fun c g => (p.followed rest c g).or (rest c g) := by
  funext c g
  rw [followed,ways_maybe,firstWay_append,firstWay_one]
  rfl

theorem followed_nil (set : CharSet) (rest : Rest α) (ended : c.after = []) (g : Captures) :
    (Pattern.char set).followed rest c g = none := by
  rw [followed,ways_char_nil ended]
  rfl

theorem followed_cons (set : CharSet) (rest : Rest α) {x : Char} {t : Text} (begins : c.after = x :: t) (g : Captures) :
    (Pattern.char set).followed rest c g = if set.contains x then rest (c.past 1) g else none := by
  rw [followed,ways_char_cons begins,firstWay_if]

theorem followed_if {holds : Cursor → Bool} (known : ∀ c, p.ways c = waysIf (holds c) c) (rest : Rest α) :
    p.followed rest = fun c g => if holds c then rest c g else none := by
  funext c g
  rw [followed,known,firstWay_if]

theorem turns_seq {m : Accord} (one : p.Turns exact l m) (two : q.Turns exact k l) : (p ++ q).Turns exact k m := by
  intro α C R rest rest' closed agrees
  rw [followed_seq,followed_seq]
  exact one closed (two closed agrees)

theorem turns_choice {m n : Accord} (one : p.Turns exact k l) (two : q.Turns exact k m) (joined : l.join? m = some n) :
    (p.choice q).Turns exact k n := by
  obtain ⟨left,right⟩ := Accord.le_join joined
  intro α C R rest rest' closed agrees
  rw [followed_choice,followed_choice]
  exact ((one closed agrees).mono left).or ((two closed agrees).mono right)

theorem turns_empty : Pattern.empty.Turns exact k k := by
  intro α C R rest rest' _ agrees
  rwa [followed_empty,followed_empty]

theorem turns_maybe {m : Accord} (one : p.Turns exact k l) (joined : l.join? k = some m) : (maybe p).Turns exact k m := by
  obtain ⟨left,right⟩ := Accord.le_join joined
  intro α C R rest rest' closed agrees
  rw [followed_maybe,followed_maybe]
  exact ((one closed agrees).mono left).or (agrees.mono right)

-- Any character other than a carriage return is followed by the same place in both texts.
theorem turns_char {set : CharSet} (return_ : set.contains '\r' = false) : (Pattern.char set).Turns exact .level .loose := by
  refine turns_of (by decide) fun {α C R rest rest'} agree => ?_
  refine ⟨?_,?_,fun isApart => (nomatch isApart)⟩
  · rintro c c' g g' ⟨facing,other⟩ captures
    cases facing.ahead with
    | ended none none' => rw [followed_nil _ _ none,followed_nil _ _ none']; exact .none
    | inner _ _ begins begins' next | between begins begins' next =>
      rw [followed_cons _ _ begins,followed_cons _ _ begins']
      exact rel_if _ (agree.meets next captures)
    | newline _ begins' => exact absurd (by rw [begins']; rfl) other
  · intro _ c c' g g' facing captures
    cases facing.ahead with
    | ended none none' => rw [followed_nil _ _ none']; exact fun _ => rfl
    | inner _ _ begins begins' next | between begins begins' next =>
      rw [followed_cons _ _ begins,followed_cons _ _ begins']
      exact rel_none (rel_if _ (agree.meets next captures))
    | newline _ begins' => rw [followed_cons _ _ begins',return_]; exact fun _ => rfl

theorem Agree.to_apart (agree : Agree C R rest rest' .loose)
    (dead : ∀ {c g}, c.after.head? = some '\n' → rest c g = none) : Agree C R rest rest' .apart := by
  have meets : ∀ {c c' g g'}, Facing c c' → C g g' → Option.Rel R (rest c g) (rest' c' g') := by
    intro c c' g g' facing captures
    by_cases return_ : c'.after.head? = some '\r'
    · have none : rest c g = none := by
        cases facing.ahead with
        | ended _ none' => simp [none'] at return_
        | inner _ other _ begins' => simp [begins',other] at return_
        | newline begins => exact dead (by rw [begins]; rfl)
        | between _ begins' => simp [begins'] at return_
      rw [none,agree.dead (by decide) facing captures none]
      exact .none
    · exact agree.meets ⟨facing,return_⟩ captures
  exact ⟨meets,fun _ _ _ _ _ facing captures => rel_none (meets facing captures),fun _ => dead⟩

theorem turns_inner {set : CharSet} (return_ : set.contains '\r' = false) (newline : set.contains '\n' = false) :
    (Pattern.char set).Turns exact .level .apart := by
  intro α C R rest rest' closed agrees
  have loose := turns_char return_ closed agrees
  have dead : ∀ rest : Rest α, ∀ {c g}, c.after.head? = some '\n' → (Pattern.char set).followed rest c g = none := by
    intro rest c g head
    obtain ⟨_,begins⟩ := List.head?_eq_some_iff.mp head
    rw [followed_cons _ _ begins,newline]
    rfl
  exact ⟨loose.blind.to_apart (dead rest),loose.agree.to_apart (dead rest)⟩

theorem turns_textEnd : Pattern.textEnd.Turns exact k .apart := by
  refine turns_of (by decide) fun {α C R rest rest'} agree => ?_
  have known : ∀ c, Pattern.textEnd.ways c = waysIf c.after.isEmpty c := fun _ => rfl
  rw [followed_if known,followed_if known]
  have same : ∀ {c c' g g'}, Facing c c' → C g g' → Option.Rel R (if c.after.isEmpty then rest c g else none)
      (if c'.after.isEmpty then rest' c' g' else none) := by
    intro c c' g g' facing captures
    cases facing.ahead with
    | ended none none' level =>
      simp only [none,none',List.isEmpty_nil,↓reduceIte]
      refine agree.meets ?_ captures
      cases k with
      | loose => exact ⟨level.facing,by simp [none']⟩
      | level => exact level
      | apart | same => exact level.facing
    | inner _ _ begins begins' | newline begins begins' | between begins begins' => simp [begins,begins']
  refine ⟨same,fun _ _ _ _ _ facing captures => rel_none (same facing captures),fun _ c g head => ?_⟩
  obtain ⟨_,begins⟩ := List.head?_eq_some_iff.mp head
  simp [begins]

theorem turns_lineEnd : Pattern.lineEnd.Turns exact .loose .loose := by
  refine turns_of (by decide) fun {α C R rest rest'} agree => ?_
  have known : ∀ c, Pattern.lineEnd.ways c = waysIf (isLineEnd c) c := fun _ => rfl
  rw [followed_if known,followed_if known]
  refine ⟨?_,?_,fun isApart => (nomatch isApart)⟩
  · rintro c c' g g' ⟨facing,other⟩ captures
    have rel := agree.meets ⟨facing,other⟩ captures
    cases facing.ahead with
    | ended none none' => simpa [isLineEnd,none,none'] using rel
    | inner newline _ begins begins' => simp [isLineEnd,begins,begins',newline]
    | newline _ begins' => exact absurd (by rw [begins']; rfl) other
    | between begins begins' => simpa [isLineEnd,begins,begins'] using rel
  · intro _ c c' g g' facing captures
    have dead := agree.dead (by decide) facing captures
    cases facing.ahead with
    | ended none none' => simpa [isLineEnd,none,none'] using dead
    | inner newline _ begins begins' => simp [isLineEnd,begins,begins',newline]
    | newline begins begins' => simp [isLineEnd,begins']
    | between begins begins' => simpa [isLineEnd,begins,begins'] using dead

theorem turns_lineStart : Pattern.lineStart.Turns exact .apart .apart := by
  refine turns_of (by decide) fun {α C R rest rest'} agree => ?_
  have known : ∀ c, Pattern.lineStart.ways c = waysIf (isLineStart c) c := fun _ => rfl
  rw [followed_if known,followed_if known]
  have dead : ∀ {c g}, c.after.head? = some '\n' → (if isLineStart c then rest c g else none) = none := by
    intro c g head
    rw [agree.apart rfl head,ite_self]
  have same : ∀ {c c' g g'}, Facing c c' → C g g' → Option.Rel R (if isLineStart c then rest c g else none)
      (if isLineStart c' then rest' c' g' else none) := by
    intro c c' g g' facing captures
    rcases facing with level | ⟨after,between⟩
    · rw [level.isLineStart]
      exact rel_if _ (agree.meets level.facing captures)
    · have head : c.after.head? = some '\n' := by rw [between.newline]; rfl
      rw [dead head,agree.dead (by decide) between.facing captures (agree.apart rfl head),ite_self]
      exact .none
  exact ⟨same,fun _ _ _ _ _ facing captures => rel_none (same facing captures),fun _ => dead⟩

section

variable {holds : Cursor → Bool} (known : ∀ c, p.ways c = waysIf (holds c) c)
include known

theorem turns_if (same : ∀ c c', Facing c c' → holds c = holds c') : p.Turns exact k k := by
  have each : ∀ {α : Type} {C : Captures → Captures → Prop} {R : α → α → Prop} {rest rest' : Rest α} {k : Accord},
      Agree C R rest rest' k → Agree C R (p.followed rest) (p.followed rest') k := by
    intro α C R rest rest' k agree
    rw [followed_if known,followed_if known]
    refine ⟨fun meets captures => ?_,fun other c c' g g' facing captures => ?_,fun isApart c g newline => ?_⟩
    · rw [same _ _ meets.facing]
      exact rel_if _ (agree.meets meets captures)
    · rw [same _ _ facing]
      split
      · exact agree.dead other facing captures
      · exact fun _ => rfl
    · rw [agree.apart isApart newline,ite_self]
  intro α C R rest rest' _ agrees
  exact ⟨each agrees.blind,each agrees.agree⟩

theorem turns_if_loose (same : ∀ c c', Facing c c' → (c'.after.head? ≠ some '\r' → holds c = holds c') ∧
    (holds c = false → holds c' = false)) : p.Turns exact .same .loose := by
  refine turns_of (by decide) fun {α C R rest rest'} agree => ?_
  rw [followed_if known,followed_if known]
  refine ⟨?_,?_,fun isApart => (nomatch isApart)⟩
  · rintro c c' g g' ⟨facing,other⟩ captures
    rw [(same c c' facing).1 other]
    exact rel_if _ (agree.meets facing captures)
  · intro _ c c' g g' facing captures none
    cases here : holds c with
    | false => rw [(same c c' facing).2 here]; rfl
    | true =>
      rw [here] at none
      rw [agree.dead (by decide) facing captures none,ite_self]

end

-- Whether there is a way at all.
def alive (p : Pattern) (c : Cursor) : Bool :=
  !(p.ways c).isEmpty

theorem alive_followed (p : Pattern) (c : Cursor) (g : Captures) :
    p.alive c = (p.followed (fun _ _ => some ()) c g).isSome := by
  unfold alive followed firstWay
  cases p.ways c <;> rfl

theorem rel_isSome {a a' : Option α} (rel : Option.Rel R a a') : a.isSome = a'.isSome := by
  cases rel <;> rfl

theorem Turns.units (turns : p.Turns exact .same l) :
    Agree Anyhow Anyhow (p.followed fun _ _ => some ()) (p.followed fun _ _ => some ()) l := by
  have unit : Agree Anyhow Anyhow (fun _ _ => some ()) (fun _ _ => some ()) .same := .of_same fun _ _ => .some trivial
  exact (turns (closed_anyhow exact) ⟨unit,unit⟩).agree

theorem Turns.alive (turns : p.Turns exact .same l) (le : l.le .same = true) (facing : Facing c c') :
    p.alive c = p.alive c' := by
  rw [alive_followed p c [],alive_followed p c' []]
  exact rel_isSome ((turns.units.mono le).meets facing trivial)

theorem Turns.alive_loose (turns : p.Turns exact .same l) (le : l.le .loose = true) (facing : Facing c c') :
    (c'.after.head? ≠ some '\r' → p.alive c = p.alive c') ∧ (p.alive c = false → p.alive c' = false) := by
  have loose := turns.units.mono le
  rw [alive_followed p c [],alive_followed p c' []]
  refine ⟨fun other => rel_isSome (loose.meets ⟨facing,other⟩ trivial),fun none => ?_⟩
  have here := Option.not_isSome_iff_eq_none.mp (ne_true_of_eq_false none)
  rw [loose.dead (by decide) facing trivial here]
  rfl

theorem ways_ahead_plain (plain : p.groups = []) (c : Cursor) : (Pattern.ahead p).ways c = waysIf (p.alive c) c := by
  show waysAhead c (p.ways c) = _
  unfold Pattern.alive
  cases found : p.ways c with
  | nil => rfl
  | cons way others =>
    have none : way.2 = [] := no_captures plain (found ▸ List.mem_cons_self ..)
    simp [waysAhead,waysIf,none]

theorem turns_ahead (plain : p.groups = []) (turns : p.Turns exact .same l) (le : l.le .same = true) :
    (Pattern.ahead p).Turns exact k k :=
  turns_if (ways_ahead_plain plain) fun _ _ facing => turns.alive le facing

theorem turns_ahead_loose (plain : p.groups = []) (turns : p.Turns exact .same l) (le : l.le .loose = true) :
    (Pattern.ahead p).Turns exact .same .loose :=
  turns_if_loose (ways_ahead_plain plain) fun _ _ facing => turns.alive_loose le facing

theorem turns_notAhead (turns : p.Turns exact .same l) (le : l.le .same = true) : (Pattern.notAhead p).Turns exact k k := by
  have known : ∀ c, (Pattern.notAhead p).ways c = waysIf (p.ways c).isEmpty c := fun _ => rfl
  exact turns_if known fun _ _ facing => Bool.not_inj (turns.alive le facing)

-- What is left to match after a group that began at a place.
def capturing (number : Nat) (start : Cursor) (rest : Rest α) : Rest α :=
  fun stop g => rest stop (⟨number,start,stop⟩ :: g)

theorem followed_group (number : Nat) (name : Option String) (p : Pattern) (rest : Rest α) (c : Cursor) (g : Captures) :
    (Pattern.group number name p).followed rest c g = p.followed (capturing number c rest) c g :=
  firstWay_group _ _ _ _ _

theorem Agree.capture_blind (agree : Agree Anyhow Anyhow rest rest' k) (number : Nat) (c c' : Cursor) :
    Agree Anyhow Anyhow (capturing number c rest) (capturing number c' rest') k where
  meets meets _ := agree.meets meets trivial
  dead other _ _ _ _ facing _ := agree.dead other facing trivial
  apart isApart _ _ newline := agree.apart isApart newline

-- Whether a group is found at all does not depend on how it is captured.
theorem group_blind (number : Nat) (name : Option String) (turns : p.Turns exact k l)
    (blind : Agree Anyhow Anyhow rest rest' k.blind) :
    Agree Anyhow Anyhow ((Pattern.group number name p).followed rest) ((Pattern.group number name p).followed rest')
      l.blind := by
  have inner : ∀ c c', Agree Anyhow Anyhow (p.followed (capturing number c rest)) (p.followed (capturing number c' rest'))
      l.blind := by
    intro c c'
    have here := blind.capture_blind number c c'
    exact (turns (closed_anyhow exact) ⟨here,here.mono k.blind_le⟩).blind
  constructor
  · intro c c' g g' meets _
    rw [followed_group,followed_group]
    exact (inner c c').meets meets trivial
  · intro other c c' g g' facing _
    rw [followed_group,followed_group]
    exact (inner c c').dead other facing trivial
  · intro isApart c g newline
    rw [followed_group]
    exact (inner c c).apart isApart newline

theorem turns_group {number : Nat} {name : Option String} (free : number ∉ exact) (turns : p.Turns exact k l) :
    (Pattern.group number name p).Turns exact k l := by
  intro α C R rest rest' closed agrees
  have blind := group_blind number name turns agrees.blind
  have inner : ∀ {c c'}, Facing c c' →
      Agree C R (p.followed (capturing number c rest)) (p.followed (capturing number c' rest')) l := by
    intro c c' facing
    have captured : ∀ {d d' g g'}, Facing d d' → C g g' → C (⟨number,c,d⟩ :: g) (⟨number,c',d'⟩ :: g') :=
      fun stops captures => closed ⟨rfl,facing,stops,fun member => absurd member free⟩ captures
    have agree : Agree C R (capturing number c rest) (capturing number c' rest') k :=
      ⟨fun meets captures => agrees.agree.meets meets (captured meets.facing captures),
        fun other _ _ _ _ stops captures => agrees.agree.dead other stops (captured stops captures),
        fun isApart _ _ newline => agrees.agree.apart isApart newline⟩
    exact (turns closed ⟨agrees.blind.capture_blind number c c',agree⟩).agree
  refine ⟨blind,fun meets captures => ?_,fun other c c' g g' facing captures => ?_,fun isApart c g newline => ?_⟩
  · rw [followed_group,followed_group]
    exact (inner meets.facing).meets meets captures
  · rw [followed_group,followed_group]
    exact (inner facing).dead other facing captures
  · subst isApart
    exact blind.apart rfl newline

-- A group that begins and ends at the same places: what is left agrees there at least.
theorem turns_exact {number : Nat} {name : Option String} (some : k = .apart ∨ k = .level) (turns : p.Turns exact k l)
    (le : l.le .level = true) : (Pattern.group number name p).Turns exact k .level := by
  intro α C R rest rest' closed agrees
  have blind := group_blind number name turns agrees.blind
  refine ⟨blind.mono (Accord.le_blind le),fun {c c' g g'} level captures => ?_,fun other => absurd rfl other,
    fun isApart => nomatch isApart⟩
  have captured : ∀ {d d' g g'}, d.Level d' → C g g' → C (⟨number,c,d⟩ :: g) (⟨number,c',d'⟩ :: g') :=
    fun stops captures => closed ⟨rfl,Cursor.Level.facing level,stops.facing,fun _ => ⟨level,stops⟩⟩ captures
  have agree : Agree C R (capturing number c rest) (capturing number c' rest') k := by
    rcases some with rfl | rfl
    · have meets : ∀ {d d' g g'}, Facing d d' → C g g' →
          Option.Rel R (capturing number c rest d g) (capturing number c' rest' d' g') := by
        intro d d' g g' facing captures
        rcases facing with stops | ⟨after,between⟩
        · exact agrees.agree.meets stops.facing (captured stops captures)
        · have none : rest d (⟨number,c,d⟩ :: g) = none := agrees.agree.apart rfl (by rw [between.newline]; rfl)
          rw [capturing,capturing,none,agrees.none between.facing none]
          exact .none
      exact ⟨meets,fun _ _ _ _ _ facing captures => rel_none (meets facing captures),
        fun _ _ _ newline => agrees.agree.apart rfl newline⟩
    · exact ⟨fun stops captures => agrees.agree.meets stops (captured stops captures),fun other => absurd rfl other,
        fun isApart => nomatch isApart⟩
  rw [followed_group,followed_group]
  exact ((turns closed ⟨agrees.blind.capture_blind number c c',agree⟩).agree.mono le).meets level captures

end Pattern
end LightMarkup
