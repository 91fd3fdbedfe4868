import LightMarkup.Proofs.Pattern.Preferring

/-!
How far a pattern can come in a text with known characters and a blank line or nothing behind it: an abstract run of the
pattern over four stages, which every way of a real run stays within. Where the abstract run ends nowhere the pattern
does not match.
-/

namespace LightMarkup
namespace Pattern

-- Where a way may stand: nowhere, in the text, there or behind the newline that follows it, or anywhere.
inductive Reach where
  | nowhere
  | inside
  | edge
  | anywhere
  deriving DecidableEq

-- Nothing or a blank line follows.
abbrev Shut (u : Text) : Prop :=
  u = [] ∨ ∃ v, u = '\n' :: '\n' :: v

namespace Reach

def rank : Reach → Nat
  | .nowhere => 0
  | .inside => 1
  | .edge => 2
  | .anywhere => 3

def join (r s : Reach) : Reach :=
  if r.rank ≤ s.rank then s else r

-- A character of the set is read.
def read (chars : List Char) (set : CharSet) : Reach → Reach
  | .nowhere => .nowhere
  | .inside => if set.contains '\n' then .edge else if chars.any set.contains then .inside else .nowhere
  | .edge => if set.contains '\n' then .anywhere else if chars.any set.contains then .inside else .nowhere
  | .anywhere => .anywhere

-- Any number of rounds. Two of them show whether more rounds come any farther.
def rounds (step : Reach → Reach) (r : Reach) : Reach :=
  if (step r).rank ≤ r.rank then r
  else if (step (step r)).rank ≤ (step r).rank then step r
  else .anywhere

-- The places of a stage in a text that begins at `base`.
def Holds (base : Cursor) (t : Text) (c : Cursor) : Reach → Prop
  | .nowhere => False
  | .inside => ∃ n ≤ t.length, c = base.past n
  | .edge => ∃ n ≤ t.length + 1, c = base.past n
  | .anywhere => True

variable {base c : Cursor} {t u : Text} {chars : List Char} {set : CharSet} {r s : Reach} {way : Way}
  {step : Reach → Reach}

theorem Holds.mono (holds : r.Holds base t c) (less : r.rank ≤ s.rank) : s.Holds base t c := by
  cases r with
  | nowhere => cases holds
  | inside =>
    obtain ⟨n,bound,rfl⟩ := holds
    cases s with
    | nowhere => simp [rank] at less
    | inside => exact ⟨n,bound,rfl⟩
    | edge => exact ⟨n,Nat.le_succ_of_le bound,rfl⟩
    | anywhere => trivial
  | edge =>
    cases s with
    | nowhere | inside => simp [rank] at less
    | edge => exact holds
    | anywhere => trivial
  | anywhere =>
    cases s with
    | nowhere | inside | edge => simp [rank] at less
    | anywhere => trivial

theorem Holds.join (holds : r.Holds base t c ∨ s.Holds base t c) : (r.join s).Holds base t c := by
  unfold Reach.join
  split
  · rename_i less
    rcases holds with one | two
    · exact one.mono less
    · exact two
  · rename_i more
    rcases holds with one | two
    · exact one
    · exact two.mono (by omega)

-- Behind the text comes a newline, and then another one.
theorem drop_shut (shut : Shut u) {n : Nat} (bound : n ≤ t.length + 1) {x : Char} {rest : Text}
    (ahead : (t ++ u).drop n = x :: rest) : n < t.length ∧ x ∈ t ∨ x = '\n' := by
  by_cases inner : n < t.length
  · refine Or.inl ⟨inner,?_⟩
    rw [List.drop_append_of_le_length (Nat.le_of_lt inner),List.drop_eq_getElem_cons inner,List.cons_append] at ahead
    rw [← (List.cons.inj ahead).1]
    exact List.getElem_mem inner
  · refine Or.inr ?_
    rw [List.drop_append,List.drop_eq_nil_of_le (by omega),List.nil_append] at ahead
    rcases shut with rfl | ⟨v,rfl⟩
    · simp at ahead
    · have either : n - t.length = 0 ∨ n - t.length = 1 := by omega
      rcases either with zero | one
      · rw [zero] at ahead
        exact (List.cons.inj ahead).1.symm
      · rw [one] at ahead
        exact (List.cons.inj ahead).1.symm

theorem Holds.read (begins : base.after = t ++ u) (shut : Shut u) (known : ∀ x ∈ t, x = '\n' ∨ x ∈ chars)
    (holds : r.Holds base t c) (found : way ∈ (Pattern.char set).ways c) :
    (r.read chars set).Holds base t way.1 := by
  obtain ⟨x,next,ahead,inSet,rfl⟩ := mem_char.mp found
  -- A place up to the edge from which a character other than a newline is read lies in the text.
  have inner : ∀ n ≤ t.length + 1, c = base.past n → set.contains '\n' = false →
      (if chars.any set.contains then Reach.inside else .nowhere).Holds base t next := by
    rintro n bound rfl newline
    cases after : (base.past n).after with
    | nil =>
      rw [Cursor.next_none after] at ahead
      cases ahead
    | cons y rest =>
      rw [Cursor.next_eq after] at ahead
      cases ahead
      have here : (t ++ u).drop n = x :: rest := by rwa [Cursor.past_after,begins] at after
      rcases drop_shut shut bound here with ⟨less,member⟩ | rfl
      · rcases known x member with rfl | member
        · rw [newline] at inSet
          cases inSet
        · rw [if_pos (List.any_eq_true.mpr ⟨x,member,inSet⟩)]
          exact ⟨n + 1,less,Cursor.past_past _ _ _⟩
      · rw [newline] at inSet
        cases inSet
  have reads := Cursor.next_reads ahead
  cases r with
  | nowhere => cases holds
  | inside =>
    obtain ⟨n,bound,rfl⟩ := holds
    simp only [Reach.read]
    split
    · exact ⟨n + 1,Nat.succ_le_succ bound,reads.eq_past.trans (Cursor.past_past _ _ _)⟩
    · rename_i newline
      exact inner n (Nat.le_succ_of_le bound) rfl (Bool.eq_false_iff.mpr newline)
  | edge =>
    obtain ⟨n,bound,rfl⟩ := holds
    simp only [Reach.read]
    split
    · trivial
    · rename_i newline
      exact inner n bound rfl (Bool.eq_false_iff.mpr newline)
  | anywhere => trivial

-- What one round keeps, and what it starts from.
theorem rounds_bound (step : Reach → Reach) (r : Reach) :
    r.rank ≤ (rounds step r).rank ∧ (rounds step r = .anywhere ∨ (step (rounds step r)).rank ≤ (rounds step r).rank) := by
  unfold rounds
  split
  · rename_i kept
    exact ⟨Nat.le_refl _,Or.inr kept⟩
  · split
    · rename_i more kept
      exact ⟨by omega,Or.inr kept⟩
    · refine ⟨?_,Or.inl rfl⟩
      cases r <;> decide

end Reach

-- The abstract run.
def reach (chars : List Char) : Pattern → Reach → Reach
  | .char set, r => r.read chars set
  | .seq first second, r => second.reach chars (first.reach chars r)
  | .choice first second, r => (first.reach chars r).join (second.reach chars r)
  | .repeated _ least _ body, r =>
    Reach.rounds (body.reach chars) (if least = 0 then r else body.reach chars r)
  | .group _ _ body, r => body.reach chars r
  | .ahead body, r => if body.reach chars r = .nowhere then .nowhere else r
  | _, r => r

section

variable {p : Pattern} {base c : Cursor} {t u : Text} {chars : List Char} {r : Reach} {way : Way}

-- One induction over the pattern; rounds keep the stage that no further round leaves.
theorem reach_holds (begins : base.after = t ++ u) (shut : Shut u) (known : ∀ x ∈ t, x = '\n' ∨ x ∈ chars) :
    ∀ {c : Cursor} {r : Reach}, r.Holds base t c → ∀ way ∈ p.ways c, (p.reach chars r).Holds base t way.1 := by
  have stays : ∀ {h : Bool} {c : Cursor} {r : Reach}, r.Holds base t c → ∀ way ∈ waysIf h c, r.Holds base t way.1 := by
    intro h c r holds way found
    obtain ⟨_,rfl⟩ := mem_waysIf.mp found
    exact holds
  induction p with
  | empty =>
    intro c r holds way found
    cases List.mem_singleton.mp found
    exact holds
  | char set =>
    intro c r holds way found
    exact holds.read begins shut known found
  | seq first second one two =>
    intro c r holds way found
    obtain ⟨mid,isFirst,next,isSecond,rfl⟩ := mem_thenWays.mp found
    exact two (one holds mid isFirst) next isSecond
  | choice first second one two =>
    intro c r holds way found
    rcases List.mem_append.mp found with found | found
    · exact .join (Or.inl (one holds way found))
    · exact .join (Or.inr (two holds way found))
  | repeated lazily least most body ih =>
    intro c r holds way found
    obtain ⟨mid,begun,next,more,rfl⟩ := mem_thenWays.mp found
    obtain ⟨above,kept⟩ := Reach.rounds_bound (body.reach chars) (if least = 0 then r else body.reach chars r)
    have closed : Closed fun way c => (reach chars (.repeated lazily least most body) r).Holds base t c →
        (reach chars (.repeated lazily least most body) r).Holds base t way.1 :=
      ⟨fun _ here => here,fun one two here => two (one here)⟩
    have round : ∀ c, ∀ way ∈ body.ways c, (reach chars (.repeated lazily least most body) r).Holds base t c →
        (reach chars (.repeated lazily least most body) r).Holds base t way.1 := by
      intro c way found here
      simp only [reach] at here ⊢
      rcases kept with far | less
      · rw [far]
        trivial
      · exact (ih here way found).mono less
    refine closed.rounds round lazily least most mid.1 next more ?_
    cases least with
    | zero =>
      cases List.mem_singleton.mp begun
      exact holds.mono above
    | succ least =>
      obtain ⟨first,isFirst,rest,others,rfl⟩ := mem_thenWays.mp begun
      exact closed.exactly round least first.1 rest others ((ih holds first isFirst).mono above)
  | group number name body ih =>
    intro c r holds way found
    obtain ⟨inner,isInner,rfl⟩ := mem_group.mp found
    exact ih holds inner isInner
  | ahead body ih =>
    intro c r holds way found
    obtain ⟨first,isFirst,rfl⟩ := mem_waysAhead found
    have seen := ih holds first isFirst
    simp only [reach]
    split
    · rename_i none
      rw [none] at seen
      cases seen
    · exact holds
  | notAhead | notBehind | textStart | textEnd | lineStart | lineEnd | lastLineEnd =>
    intro c r holds
    exact stays holds

-- Where the abstract run ends nowhere, the pattern does not match.
theorem reach_none (dead : p.reach chars r = .nowhere) (begins : base.after = t ++ u) (shut : Shut u)
    (known : ∀ x ∈ t, x = '\n' ∨ x ∈ chars) (holds : r.Holds base t c) : p.ways c = [] := by
  rw [List.eq_nil_iff_forall_not_mem]
  intro way found
  have reached := reach_holds begins shut known holds way found
  rw [dead] at reached
  exact reached

-- From the edge: neither in the text nor at the newline behind it.
theorem reach_dead (dead : p.reach chars .edge = .nowhere) (begins : base.after = t ++ u) (shut : Shut u)
    (known : ∀ x ∈ t, x = '\n' ∨ x ∈ chars) {n : Nat} (bound : n ≤ t.length + 1) : p.ways (base.past n) = [] :=
  reach_none dead begins shut known ⟨n,bound,rfl⟩

end

end Pattern
end LightMarkup
