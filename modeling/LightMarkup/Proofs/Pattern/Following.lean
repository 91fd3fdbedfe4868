import LightMarkup.Proofs.Pattern.Reading

/-!
Matches one after the other: what a search from left to right finds never overlaps, is never empty and stays inside
the text, and every character that it passes over is one at which nothing was found.
-/

namespace LightMarkup

-- Spans that are not empty, in order and apart from each other, between two offsets.
def InOrder (first last : Nat) : List (Nat × Nat) → Prop
  | [] => first ≤ last
  | (start, stop) :: spans => first ≤ start ∧ start < stop ∧ InOrder stop last spans

instance decidableInOrder (first last : Nat) : (spans : List (Nat × Nat)) → Decidable (InOrder first last spans)
  | [] => inferInstanceAs (Decidable (first ≤ last))
  | (start, stop) :: spans =>
    have := decidableInOrder stop last spans
    inferInstanceAs (Decidable (first ≤ start ∧ start < stop ∧ InOrder stop last spans))

theorem InOrder.le {first last : Nat} {spans : List (Nat × Nat)} (ordered : InOrder first last spans) : first ≤ last := by
  induction spans generalizing first with
  | nil => exact ordered
  | cons span spans ih =>
    obtain ⟨before,some,after⟩ := ordered
    exact Nat.le_trans before (Nat.le_trans (Nat.le_of_lt some) (ih after))

theorem InOrder.within {first last : Nat} {spans : List (Nat × Nat)} (ordered : InOrder first last spans) :
    ∀ span ∈ spans, first ≤ span.1 ∧ span.1 < span.2 ∧ span.2 ≤ last := by
  induction spans generalizing first with
  | nil => intro span member; cases member
  | cons span spans ih =>
    obtain ⟨before,some,after⟩ := ordered
    refine List.forall_mem_cons.mpr ⟨⟨before,some,after.le⟩,fun next member => ?_⟩
    have far := ih after next member
    exact ⟨by omega,far.2⟩

theorem InOrder.pairwise {first last : Nat} {spans : List (Nat × Nat)} (ordered : InOrder first last spans) :
    spans.Pairwise fun one two => one.2 ≤ two.1 := by
  induction spans generalizing first with
  | nil => exact .nil
  | cons span spans ih => exact .cons (fun next member => (ordered.2.2.within next member).1) (ih ordered.2.2)

namespace Match

variable {p : Pattern} {m : Match} {ms : List Match} {position : Nat} {t : Text} {P : Char → Prop}

-- One of the ways in which the pattern matches where the match starts.
def IsWay (p : Pattern) (m : Match) : Prop :=
  (m.stop,m.captures) ∈ p.ways m.start

theorem IsWay.reads (way : m.IsWay p) : ∃ t, m.start.Reads t m.stop :=
  Pattern.ways_reads way

theorem IsWay.capture (way : m.IsWay p) {n : Nat} {k : Capture} (captured : m.capture? n = some k) :
    k.start.after <:+ m.start.after := by
  rw [capture?] at captured
  split at captured
  · cases captured
    exact List.suffix_refl _
  · exact (Pattern.ways_ahead _ _ way).2 k (List.mem_of_find?_eq_some captured)

-- What a group holds is read from the text ahead of the match.
theorem IsWay.group_subset (way : m.IsWay p) (n : Nat) : m.group n ⊆ m.start.after := by
  rw [group,group?]
  cases captured : m.capture? n with
  | none => exact List.nil_subset _
  | some k => exact List.Subset.trans (List.take_subset _ _) (way.capture captured).subset

-- Matches in a text that begins at `position`. What lies around them satisfies `P`.
inductive Follow (P : Char → Prop) : Nat → Text → List Match → Prop where
  | nil {position : Nat} {t : Text} (around : ∀ x ∈ t, P x) : Follow P position t []
  | cons {position : Nat} {gap inner : Text} {m : Match} {rest : List Match}
      (placed : m.start.position = position + gap.length) (around : ∀ x ∈ gap, P x)
      (read : m.start.Reads inner m.stop) (some : inner ≠ [])
      (later : Follow P m.stop.position m.stop.after rest) : Follow P position (gap ++ m.start.after) (m :: rest)

theorem Follow.pass {x : Char} (passed : P x) (follow : Follow P (position + 1) t ms) :
    Follow P position (x :: t) ms := by
  cases follow with
  | nil around => exact .nil (by simpa using ⟨passed,around⟩)
  | @cons _ gap inner m rest placed around read some later =>
    have behind : m.start.position = position + (x :: gap).length := by
      rw [placed,List.length_cons]
      omega
    exact .cons behind (by simpa using ⟨passed,around⟩) read some later

theorem Follow.inOrder (follow : Follow P position t ms) :
    InOrder position (position + t.length) (ms.map Match.span) := by
  induction follow with
  | nil => exact Nat.le_add_right _ _
  | @cons position gap inner m rest placed around read some later ih =>
    have stop := read.position
    have all := read.length
    have positive := List.length_pos_iff.mpr some
    refine ⟨by omega,by omega,?_⟩
    have same : position + (gap ++ m.start.after).length = m.stop.position + m.stop.after.length := by
      simp only [List.length_append]
      omega
    rw [same]
    exact ih

-- The first match cuts the text in three.
theorem Follow.cut (follow : Follow P position t (m :: ms)) :
    ∃ inner, t = t.take (m.start.position - position) ++ (inner ++ t.drop (m.stop.position - position)) ∧ inner ≠ [] ∧
      m.start.Reads inner m.stop ∧ position + (t.take (m.start.position - position)).length = m.start.position ∧
      Follow P m.stop.position (t.drop (m.stop.position - position)) ms := by
  cases follow with
  | @cons _ gap inner _ _ placed around read some later =>
    have stop := read.position
    have front : (gap ++ m.start.after).take (m.start.position - position) = gap := by
      rw [placed,Nat.add_sub_cancel_left,List.take_left]
    have back : (gap ++ m.start.after).drop (m.stop.position - position) = m.stop.after := by
      rw [stop,placed,read.1,← List.append_assoc]
      exact List.drop_left' (by simp; omega)
    rw [front,back]
    exact ⟨inner,by rw [read.1],some,read,placed.symm,later⟩

end Match

namespace Pattern

variable {α : Type} {attempt : Cursor → Option α} {matchOf : α → Match} {p : Pattern} {c : Cursor} {m : Match} {t : Text}
  {P : Char → Prop}

-- What is found at a place starts there and has at least one character.
structure Finds (attempt : Cursor → Option α) (matchOf : α → Match) : Prop where
  start : ∀ {c x}, attempt c = some x → (matchOf x).start = c
  reads : ∀ {c x}, attempt c = some x → ∃ inner, c.Reads inner (matchOf x).stop ∧ inner ≠ []

theorem Finds.not_at_end (finds : Finds attempt matchOf) (before : Text) : attempt ⟨before,[]⟩ = none := by
  cases found : attempt ⟨before,[]⟩ with
  | none => rfl
  | some x =>
    obtain ⟨inner,read,some⟩ := finds.reads found
    exact absurd (List.append_eq_nil_iff.mp read.1.symm).1 some

theorem scanFrom_follow (finds : Finds attempt matchOf)
    (passes : ∀ before x rest, attempt ⟨before,x :: rest⟩ = none → P x) :
    ∀ (t before : Text) (skip : Nat), skip ≤ t.length →
      Match.Follow P (before.length + skip) (t.drop skip)
        ((scanFrom (fun x => (matchOf x).length) attempt before skip t).map matchOf) := by
  intro t
  induction t with
  | nil =>
    intro before skip bound
    cases Nat.le_zero.mp bound
    simp only [scanFrom,finds.not_at_end,Option.toList_none,List.map_nil]
    exact .nil (by simp)
  | cons x rest ih =>
    intro before skip bound
    cases skip with
    | succ skip =>
      have later := ih (x :: before) skip (by simpa using bound)
      simpa [scanFrom,Nat.add_assoc,Nat.add_comm 1] using later
    | zero =>
      simp only [scanFrom,List.drop_zero,Nat.add_zero]
      cases found : attempt ⟨before,x :: rest⟩ with
      | none =>
        have later := ih (x :: before) 0 (Nat.zero_le _)
        exact .pass (passes before x rest found) (by simpa using later)
      | some held =>
        obtain ⟨inner,read,some⟩ := finds.reads found
        have start := finds.start found
        obtain ⟨y,inner,rfl⟩ := List.exists_cons_of_ne_nil some
        have after : rest = inner ++ (matchOf held).stop.after := by simpa using (List.cons.inj read.1).2
        have length : (matchOf held).length = inner.length + 1 := by
          simp [Match.length,start,read.position]
        have later := ih (x :: before) inner.length (by simp [after])
        have stop : (matchOf held).stop.position = (x :: before).length + inner.length := by
          rw [read.position]
          simp [Cursor.position]
          omega
        have drop : rest.drop inner.length = (matchOf held).stop.after := by
          rw [after]
          simp
        rw [drop,← stop] at later
        rw [List.map_cons,show (matchOf held).length - 1 = inner.length by simp [length]]
        rw [← start] at read
        have here : x :: rest = [] ++ (matchOf held).start.after := by simp [start]
        rw [here]
        exact .cons (by simp [start,Cursor.position]) (by simp) read (by simp) later

-- What is found is what is tried at some place of the text.
theorem scanFrom_at (finds : Finds attempt matchOf) :
    ∀ (t before : Text) (skip : Nat), ∀ x ∈ scanFrom (fun x => (matchOf x).length) attempt before skip t,
      ∃ c, attempt c = some x ∧ c.text = before.reverse ++ t := by
  intro t
  induction t with
  | nil =>
    intro before skip x member
    cases skip <;> simp [scanFrom,finds.not_at_end] at member
  | cons y rest ih =>
    have later : ∀ before skip, ∀ x ∈ scanFrom (fun x => (matchOf x).length) attempt (y :: before) skip rest,
        ∃ c, attempt c = some x ∧ c.text = before.reverse ++ y :: rest := by
      intro before skip x member
      simpa using ih (y :: before) skip x member
    intro before skip x member
    cases skip with
    | succ skip => exact later before skip x member
    | zero =>
      simp only [scanFrom] at member
      cases found : attempt ⟨before,y :: rest⟩ with
      | none =>
        rw [found] at member
        exact later before 0 x member
      | some held =>
        rw [found] at member
        rcases List.mem_cons.mp member with rfl | member
        · exact ⟨⟨before,y :: rest⟩,found,rfl⟩
        · exact later before _ x member

theorem scanFrom_found (finds : Finds attempt matchOf) (t before : Text) (skip : Nat) :
    ∀ x ∈ scanFrom (fun x => (matchOf x).length) attempt before skip t, attempt (matchOf x).start = some x := by
  intro x member
  obtain ⟨c,found,_⟩ := scanFrom_at finds t before skip x member
  rw [finds.start found,found]

theorem scanFrom_text (finds : Finds attempt matchOf) (t before : Text) (skip : Nat) :
    ∀ x ∈ scanFrom (fun x => (matchOf x).length) attempt before skip t, (matchOf x).start.text = before.reverse ++ t := by
  intro x member
  obtain ⟨c,found,text⟩ := scanFrom_at finds t before skip x member
  rw [finds.start found,text]

theorem matchAt_way (found : p.matchAt? c = some m) : m.start = c ∧ m.IsWay p := by
  rw [matchAt?,run_eq] at found
  obtain ⟨way,isWay,same⟩ := List.exists_of_findSome?_eq_some found
  cases Option.some.inj same
  exact ⟨rfl,by simpa [Match.IsWay] using isWay⟩

theorem matchSomeAt_way (found : p.matchSomeAt? c = some m) :
    m.start = c ∧ m.IsWay p ∧ m.stop.after.length < c.after.length := by
  rw [matchSomeAt?,run_eq] at found
  obtain ⟨way,isWay,same⟩ := List.exists_of_findSome?_eq_some found
  dsimp only at same
  split at same
  · rename_i shorter
    cases Option.some.inj same
    exact ⟨rfl,by simpa [Match.IsWay] using isWay,shorter⟩
  · cases same

theorem fullMatch_way (found : p.fullMatch? t = some m) : m.start = .start t ∧ m.IsWay p ∧ m.stop.after = [] := by
  rw [fullMatch?,run_eq] at found
  obtain ⟨way,isWay,same⟩ := List.exists_of_findSome?_eq_some found
  dsimp only at same
  split at same
  · rename_i ended
    cases Option.some.inj same
    exact ⟨rfl,by simpa [Match.IsWay] using isWay,List.isEmpty_iff.mp ended⟩
  · cases same

theorem matchSomeAt_none : p.matchSomeAt? c = none ↔ ∀ way ∈ p.ways c, c.after.length ≤ way.1.after.length := by
  rw [matchSomeAt?,run_eq]
  simp [firstWay,List.findSome?_eq_none_iff]

theorem searchFrom_found {attempt : Cursor → Option Match} :
    ∀ (t before : Text), searchFrom? attempt before t = some m →
      ∃ c : Cursor, attempt c = some m ∧ c.text = before.reverse ++ t := by
  intro t
  induction t with
  | nil => intro before found; exact ⟨_,found,rfl⟩
  | cons x rest ih =>
    intro before found
    simp only [searchFrom?] at found
    split at found
    · rename_i held here
      cases Option.some.inj found
      exact ⟨_,here,rfl⟩
    · obtain ⟨c,here,text⟩ := ih _ found
      exact ⟨c,here,by simpa using text⟩

theorem search_way (found : p.search? t = some m) : m.start.text = t ∧ m.IsWay p := by
  obtain ⟨c,here,text⟩ := searchFrom_found t [] found
  obtain ⟨rfl,way⟩ := matchAt_way here
  exact ⟨by simpa using text,way⟩

theorem occurrences_find (p : Pattern) : Finds p.matchSomeAt? id where
  start found := (matchSomeAt_way found).1
  reads := by
    intro c m found
    obtain ⟨rfl,way,shorter⟩ := matchSomeAt_way found
    obtain ⟨inner,read⟩ := way.reads
    refine ⟨inner,read,?_⟩
    rintro rfl
    exact absurd read.length (by simp; omega)

theorem occurrences_follow (p : Pattern) (t : Text)
    (passes : ∀ before x rest, p.matchSomeAt? ⟨before,x :: rest⟩ = none → P x) :
    Match.Follow P 0 t (p.occurrences t) := by
  have follow := scanFrom_follow (occurrences_find p) passes t [] 0 (Nat.zero_le _)
  rw [List.map_id] at follow
  exact follow

theorem occurrences_inOrder (p : Pattern) (t : Text) : InOrder 0 t.length ((p.occurrences t).map Match.span) := by
  simpa using (occurrences_follow (P := fun _ => True) p t fun _ _ _ _ => trivial).inOrder

theorem occurrences_way (found : m ∈ p.occurrences t) : m.IsWay p :=
  (matchSomeAt_way (scanFrom_found (occurrences_find p) t [] 0 m found)).2.1

theorem occurrences_text (found : m ∈ p.occurrences t) : m.start.text = t :=
  scanFrom_text (occurrences_find p) t [] 0 m found

theorem occurrences_some (found : m ∈ p.occurrences t) : p.matchSomeAt? m.start = some m :=
  scanFrom_found (occurrences_find p) t [] 0 m found

theorem matchAt_none (none : p.matchAt? c = none) : p.ways c = [] := by
  rw [matchAt?,run_eq] at none
  cases ways : p.ways c with
  | nil => rfl
  | cons way others => simp [firstWay,ways] at none

-- The preferred match is also the preferred one that is not empty, unless it is empty.
theorem matchSomeAt_some (found : p.matchAt? c = some m) (some : m.length ≠ 0) : p.matchSomeAt? c = .some m := by
  obtain ⟨rfl,way⟩ := matchAt_way found
  obtain ⟨inner,read⟩ := way.reads
  have shorter : m.stop.after.length < m.start.after.length := by
    rw [Match.length,read.position] at some
    rw [read.length]
    omega
  rw [matchAt?,run_eq] at found
  rw [matchSomeAt?,run_eq]
  cases ways : p.ways m.start with
  | nil => simp [firstWay,ways] at found
  | cons first others =>
    simp only [firstWay,ways,List.findSome?_cons,List.append_nil,Option.some.injEq] at found ⊢
    rw [← found] at shorter ⊢
    simp [shorter]

-- The occurrences are all matches but the empty ones.
theorem findAllFrom_nonempty (p : Pattern) : ∀ (t before : Text) (skip : Nat),
    (p.findAllFrom before skip t).filter (fun m => m.length != 0) =
      scanFrom Match.length p.matchSomeAt? before skip t := by
  have some : ∀ {c m}, p.matchSomeAt? c = some m → m.length ≠ 0 := by
    intro c m found
    obtain ⟨rfl,way,shorter⟩ := matchSomeAt_way found
    obtain ⟨inner,read⟩ := way.reads
    have length := read.length
    rw [Match.length,read.position]
    omega
  intro t
  induction t with
  | nil =>
    intro before skip
    cases skip with
    | succ skip => rfl
    | zero =>
      simp only [findAllFrom,scanFrom,(occurrences_find p).not_at_end,Option.toList_none]
      cases found : p.matchAt? ⟨before,[]⟩ with
      | none => rfl
      | some m =>
        have empty : m.length = 0 := by
          refine Classical.byContradiction fun some => ?_
          have more := matchSomeAt_some found some
          rw [(occurrences_find p).not_at_end] at more
          cases more
        simp [empty]
  | cons x rest ih =>
    intro before skip
    cases skip with
    | succ skip => exact ih (x :: before) skip
    | zero =>
      simp only [findAllFrom,scanFrom]
      cases found : p.matchAt? ⟨before,x :: rest⟩ with
      | none =>
        rw [matchSomeAt_none.mpr (by simp [matchAt_none found])]
        exact ih (x :: before) 0
      | some m =>
        by_cases empty : m.length = 0
        · cases more : p.matchSomeAt? ⟨before,x :: rest⟩ with
          | none => simp [empty,ih]
          | some longer => simp [empty,some more,ih]
        · simp [empty,matchSomeAt_some found empty,ih]

theorem findAll_nonempty (p : Pattern) (t : Text) :
    (p.findAll t).filter (fun m => m.length != 0) = p.occurrences t :=
  findAllFrom_nonempty p t [] 0

end Pattern
end LightMarkup
