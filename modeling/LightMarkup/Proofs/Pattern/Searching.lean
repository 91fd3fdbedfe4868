import LightMarkup.Proofs.Pattern.Preferring

/-!
Searching from a place on. What a search for the first occurrence finds is found at the first place where anything is, and
where it finds nothing there is nothing at any place behind. A search for all of them goes on at the end of what it has found.
-/

namespace LightMarkup
namespace Pattern

variable {attempt : Cursor → Option Match} {p : Pattern} {c : Cursor} {m : Match}

theorem search_here (found : attempt c = some m) : searchFrom? attempt c.before c.after = some m := by
  obtain ⟨before,after⟩ := c
  cases after with
  | nil => exact found
  | cons x rest => rw [searchFrom?,found]

theorem search_pass {x : Char} {rest : Text} (begins : c.after = x :: rest) (none : attempt c = none) :
    searchFrom? attempt c.before c.after = searchFrom? attempt (c.past 1).before (c.past 1).after := by
  obtain ⟨before,after⟩ := c
  cases begins
  rw [searchFrom?,none]
  rfl

theorem search_none (none : searchFrom? attempt c.before c.after = none) : ∀ n ≤ c.after.length, attempt (c.past n) = .none := by
  obtain ⟨before,after⟩ := c
  induction after generalizing before with
  | nil =>
    intro n bound
    rw [Nat.le_zero.mp bound,Cursor.past_zero]
    exact none
  | cons x rest ih =>
    intro n bound
    cases here : attempt ⟨before,x :: rest⟩ with
    | some m => cases (search_here here).symm.trans none
    | none =>
      cases n with
      | zero => rwa [Cursor.past_zero]
      | succ n =>
        rw [search_pass rfl here] at none
        have later := ih _ none n (Nat.le_of_succ_le_succ bound)
        rwa [Nat.add_comm n,← Cursor.past_past]

theorem search_first (found : searchFrom? attempt c.before c.after = some m) :
    ∃ k ≤ c.after.length, attempt (c.past k) = some m ∧ ∀ n < k, attempt (c.past n) = none := by
  obtain ⟨before,after⟩ := c
  induction after generalizing before with
  | nil => exact ⟨0,Nat.le_refl _,by rwa [Cursor.past_zero],fun n less => absurd less (Nat.not_lt_zero n)⟩
  | cons x rest ih =>
    cases here : attempt ⟨before,x :: rest⟩ with
    | some m' =>
      cases (search_here here).symm.trans found
      exact ⟨0,Nat.zero_le _,by rwa [Cursor.past_zero],fun n less => absurd less (Nat.not_lt_zero n)⟩
    | none =>
      rw [search_pass rfl here] at found
      obtain ⟨k,bound,first,before⟩ := ih _ found
      refine ⟨1 + k,by rw [Nat.add_comm]; exact Nat.succ_le_succ bound,by rwa [← Cursor.past_past],fun n less => ?_⟩
      cases n with
      | zero => rwa [Cursor.past_zero]
      | succ n =>
        rw [Nat.add_comm n,← Cursor.past_past]
        exact before n (by omega)

-- A match is found behind the place where the search begins, or there.
theorem search_behind (found : searchFrom? p.matchAt? c.before c.after = some m) : c.position ≤ m.start.position := by
  obtain ⟨k,bound,first,_⟩ := search_first found
  rw [(matchAt_way first).1,Cursor.past_position bound]
  exact Nat.le_add_right _ _

theorem search_later (none : p.matchAt? c = none) (found : searchFrom? p.matchAt? c.before c.after = some m) :
    c.position < m.start.position := by
  obtain ⟨k,bound,first,_⟩ := search_first found
  cases k with
  | zero =>
    rw [Cursor.past_zero,none] at first
    cases first
  | succ k =>
    rw [(matchAt_way first).1,Cursor.past_position bound]
    exact Nat.lt_add_of_pos_right (Nat.succ_pos k)

section

variable {α : Type} {attempt : Cursor → Option α} {matchOf : α → Match} {t : Text}

-- What is found from a place on.
def foundFrom (attempt : Cursor → Option α) (matchOf : α → Match) (c : Cursor) : List α :=
  scanFrom (fun a => (matchOf a).length) attempt c.before 0 c.after

theorem foundFrom_ended (finds : Finds attempt matchOf) (ended : c.after = []) : foundFrom attempt matchOf c = [] := by
  rw [foundFrom,ended,scanFrom,finds.not_at_end]
  rfl

theorem foundFrom_pass {x : Char} (begins : c.after = x :: t) (none : attempt c = none) :
    foundFrom attempt matchOf c = foundFrom attempt matchOf (c.past 1) := by
  obtain ⟨before,after⟩ := c
  cases begins
  rw [foundFrom,scanFrom,none]
  rfl

theorem foundFrom_take (finds : Finds attempt matchOf) {a : α} (found : attempt c = some a) :
    foundFrom attempt matchOf c = a :: foundFrom attempt matchOf (matchOf a).stop := by
  obtain ⟨inner,read,some⟩ := finds.reads found
  have start := finds.start found
  obtain ⟨before,after⟩ := c
  obtain ⟨ahead,behind⟩ := read
  simp only at ahead behind
  subst ahead
  have length : (matchOf a).length = inner.length := by
    rw [Match.length,start,Cursor.position,Cursor.position,behind,List.length_append,List.length_reverse]
    exact Nat.add_sub_cancel _ _
  rw [foundFrom,scan_take found some length,← behind]
  rfl

-- A search goes from its place to the next one, or to the end of what it finds.
theorem search_induct {P : Cursor → Prop} (finds : Finds attempt matchOf) (ended : ∀ {c : Cursor}, c.after = [] → P c)
    (pass : ∀ {c : Cursor} {x t}, c.after = x :: t → attempt c = none → P (c.past 1) → P c)
    (take : ∀ {c a}, attempt c = some a → P (matchOf a).stop → P c) (c : Cursor) : P c := by
  have all : ∀ n, ∀ c : Cursor, c.after.length ≤ n → P c := by
    intro n
    induction n with
    | zero => exact fun c bound => ended (List.length_eq_zero_iff.mp (Nat.le_zero.mp bound))
    | succ n ih =>
      intro c bound
      cases found : attempt c with
      | some a =>
        obtain ⟨inner,read,some⟩ := finds.reads found
        have length := read.length
        have positive := List.length_pos_iff.mpr some
        exact take found (ih _ (by omega))
      | none =>
        cases begins : c.after with
        | nil => exact ended begins
        | cons x t => exact pass begins found (ih _ (by rw [begins] at bound; simpa [begins] using bound))
  exact all _ c (Nat.le_refl _)

end

end Pattern
end LightMarkup
