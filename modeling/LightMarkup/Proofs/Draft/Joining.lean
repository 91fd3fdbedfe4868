import LightMarkup.Proofs.Draft.Atoms
import LightMarkup.Proofs.Pattern.Adjoining

/-!
Parts put behind other parts. A match that lies in the one or in the other is cut out of the whole as it is cut out of
them alone, and what stands between two matches is split where the second parts begin.
-/

namespace LightMarkup
namespace Draft

variable {scope : Option String} {ends : Boundary} {first last start stop position : Nat} {one two parts : List Part}

theorem placedFrom_within : ∀ placed ∈ placedFrom scope position parts,
    placed.1 + widthOf scope placed.2 ≤ position + (visibleContentOf scope parts).length := by
  induction parts generalizing position with
  | nil => intro placed member; cases member
  | cons part rest ih =>
    have width : (visibleContentOf scope (part :: rest)).length = widthOf scope part + (visibleContentOf scope rest).length := by
      rw [visibleContentOf_cons,List.length_append,widthOf]
      split <;> rfl
    intro placed member
    rcases List.mem_cons.mp member with rfl | member
    · simp only [width]
      omega
    · have far := ih placed member
      omega

theorem placedFrom_shift (offset position : Nat) (parts : List Part) : placedFrom scope (offset + position) parts =
    (placedFrom scope position parts).map fun placed => (offset + placed.1,placed.2) := by
  induction parts generalizing position with
  | nil => rfl
  | cons part rest ih => rw [placedFrom,placedFrom,List.map_cons,← ih,Nat.add_assoc]

theorem windowFrom_shift (scope : Option String) (ends : Boundary) (offset start stop position : Nat) (parts : List Part) :
    windowFrom scope ends (offset + start) (offset + stop) (offset + position) parts =
      windowFrom scope ends start stop position parts := by
  rw [windowFrom,placedFrom_shift,List.flatMap_map,windowFrom]
  refine List.flatMap_congr fun placed _ => ?_
  simp [keptIn,Part.between,Boundary.keeps,Nat.add_sub_add_left]

-- A window that begins before the parts, and one that ends behind them.
theorem windowFrom_early (before : first ≤ position) (after : position ≤ stop) :
    windowFrom scope .both first stop position parts = windowFrom scope .both position stop position parts := by
  refine List.flatMap_congr fun placed member => ?_
  have far := placedFrom_after placed member
  have same : Boundary.both.keeps first stop placed.1 = Boundary.both.keeps position stop placed.1 := by
    rw [Bool.eq_iff_iff,Boundary.keeps_both (by omega),Boundary.keeps_both after]
    omega
  rw [keptIn,keptIn,same,Part.between,Part.between,show first - placed.1 = position - placed.1 by omega]

theorem windowFrom_late (ended : position + (visibleContentOf scope parts).length = last) (before : start ≤ last)
    (after : last ≤ stop) :
    windowFrom scope .both start stop position parts = windowFrom scope .both start last position parts := by
  refine List.flatMap_congr fun placed member => ?_
  have near := placedFrom_within placed member
  cases visible : placed.2.visibleTo scope with
  | true =>
    simp only [widthOf,visible,↓reduceIte] at near
    have all : ∀ {end_}, last ≤ end_ → placed.2.content.take (end_ - placed.1) = placed.2.content := fun far =>
      List.take_of_length_le (by omega)
    simp [keptIn,visible,Part.between,all after,all (Nat.le_refl _)]
  | false =>
    have same : Boundary.both.keeps start stop placed.1 = Boundary.both.keeps start last placed.1 := by
      rw [Bool.eq_iff_iff,Boundary.keeps_both (by omega),Boundary.keeps_both before]
      omega
    simp [keptIn,visible,same]

theorem matchedAt_left {span : Nat × Nat} (some : span.1 < span.2)
    (inside : span.2 ≤ (visibleContentOf scope one).length) :
    matchedAt scope (one ++ two) span = matchedAt scope one span := by
  have none : windowFrom scope .neither span.1 span.2 (0 + (visibleContentOf scope one).length) two = [] :=
    windowFrom_past (by omega) (by omega) fun _ => rfl
  rw [matchedAt,windowFrom_append,none,List.append_nil]
  rfl

-- A window in the second parts.
theorem windowFrom_right (ordered : start ≤ stop) (left : start = 0 → ends.left = false ∧ start < stop) :
    windowFrom scope ends ((visibleContentOf scope one).length + start) ((visibleContentOf scope one).length + stop) 0
      (one ++ two) = windowFrom scope ends start stop 0 two := by
  have none : windowFrom scope ends ((visibleContentOf scope one).length + start)
      ((visibleContentOf scope one).length + stop) 0 one = [] :=
    windowFrom_front (by omega) (by omega) fun same => (left (by omega)).imp_right fun some => by omega
  rw [windowFrom_append,none,List.nil_append,Nat.zero_add]
  exact windowFrom_shift scope ends _ start stop 0 two

theorem matchedAt_right {span : Nat × Nat} (some : span.1 < span.2) :
    matchedAt scope (one ++ two) (shifted (visibleContentOf scope one).length span) = matchedAt scope two span :=
  windowFrom_right (Nat.le_of_lt some) fun _ => ⟨rfl,some⟩

theorem stretch_right (begun : 0 < first) (before : first ≤ last) :
    stretch scope (one ++ two) ((visibleContentOf scope one).length + first) ((visibleContentOf scope one).length + last) =
      stretch scope two first last :=
  windowFrom_right before (by omega)

theorem stretch_left (before : first ≤ last) (inside : last < (visibleContentOf scope one).length) :
    stretch scope (one ++ two) first last = stretch scope one first last := by
  have none : windowFrom scope .both first last (0 + (visibleContentOf scope one).length) two = [] :=
    windowFrom_past (by omega) (by omega) (by omega)
  rw [stretch,windowFrom_append,none,List.append_nil]
  rfl

theorem stretch_over (before : first ≤ (visibleContentOf scope one).length) :
    stretch scope (one ++ two) first ((visibleContentOf scope one).length + last) =
      stretch scope one first (visibleContentOf scope one).length ++ stretch scope two 0 last := by
  have front := windowFrom_late (Nat.zero_add _) before (Nat.le_add_right _ last)
  have back : windowFrom scope .both first ((visibleContentOf scope one).length + last)
      ((visibleContentOf scope one).length + 0) two = stretch scope two 0 last :=
    (windowFrom_early before (by omega)).trans (windowFrom_shift scope .both _ 0 last 0 two)
  rw [stretch,windowFrom_append,front,Nat.zero_add]
  exact congrArg _ back

variable {spans others : List (Nat × Nat)} {outs later : List (List Part)}

-- Behind a match in the second parts.
theorem spliced_right (begun : 0 < first) (ordered : InOrder first last spans) :
    spliced scope (one ++ two) ((visibleContentOf scope one).length + last) ((visibleContentOf scope one).length + first)
        (spans.map (shifted (visibleContentOf scope one).length)) outs =
      spliced scope two last first spans outs := by
  induction spans generalizing first outs with
  | nil => exact stretch_right begun ordered
  | cons span spans ih =>
    obtain ⟨before,some,after⟩ := ordered
    cases outs with
    | nil => exact stretch_right begun (Nat.le_trans before (Nat.le_trans (Nat.le_of_lt some) after.le))
    | cons out outs =>
      simp only [List.map_cons,shifted,spliced]
      rw [stretch_right begun before,ih (by omega) after]

-- The stretch that begins in the first parts goes over into the second ones.
theorem spliced_over (before : first ≤ (visibleContentOf scope one).length) (ordered : InOrder 0 last spans) :
    spliced scope (one ++ two) ((visibleContentOf scope one).length + last) first
        (spans.map (shifted (visibleContentOf scope one).length)) outs =
      stretch scope one first (visibleContentOf scope one).length ++ spliced scope two last 0 spans outs := by
  cases spans with
  | nil => exact stretch_over before
  | cons span spans =>
    cases outs with
    | nil => exact stretch_over before
    | cons out outs =>
      obtain ⟨_,some,after⟩ := ordered
      simp only [List.map_cons,shifted,spliced]
      rw [stretch_over before,spliced_right (by omega) after,List.append_assoc]

theorem spliced_append (ordered : InOrder first (visibleContentOf scope one).length spans)
    (follow : InOrder 0 (visibleContentOf scope two).length others) (matched : spans.length = outs.length) :
    spliced scope (one ++ two) (visibleContentOf scope (one ++ two)).length first
        (spans ++ others.map (shifted (visibleContentOf scope one).length)) (outs ++ later) =
      spliced scope one (visibleContentOf scope one).length first spans outs ++
        spliced scope two (visibleContentOf scope two).length 0 others later := by
  rw [visibleContentOf_append,List.length_append]
  induction spans generalizing first outs with
  | nil =>
    cases List.length_eq_zero_iff.mp matched.symm
    exact spliced_over ordered follow
  | cons span spans ih =>
    obtain ⟨before,some,after⟩ := ordered
    cases outs with
    | nil => cases matched
    | cons out outs =>
      simp only [List.cons_append,spliced]
      rw [stretch_left before (Nat.lt_of_lt_of_le some after.le),ih after (Nat.succ.inj matched),List.append_assoc,
        List.append_assoc]

end Draft
end LightMarkup
