import LightMarkup.Proofs.Draft.Windows

/-!
Several windows of the same parts, one behind the other and apart from each other. Although each is cut on its own, one
walk over the parts meets them in their order, so that no part is taken twice.
-/

namespace LightMarkup
namespace Draft

variable {scope : Option String} {position : Nat} {parts : List Part} {spans : List (Nat × Nat)} {placed : Nat × Part}

-- Spans in order, of which no two touch.
structure Apart (spans : List (Nat × Nat)) : Prop where
  proper : ∀ span ∈ spans, span.1 ≤ span.2
  apart : spans.Pairwise fun one two => one.2 < two.1

theorem Apart.tail {span : Nat × Nat} (apart : Apart (span :: spans)) : Apart spans :=
  ⟨fun next member => apart.proper next (List.mem_cons_of_mem _ member),(List.pairwise_cons.mp apart.apart).2⟩

theorem Apart.after {span : Nat × Nat} (apart : Apart (span :: spans)) : ∀ next ∈ spans, span.2 < next.1 :=
  (List.pairwise_cons.mp apart.apart).1

def selectionFrom (scope : Option String) (spans : List (Nat × Nat)) (position : Nat) (parts : List Part) : List Part :=
  spans.flatMap fun span => windowFrom scope .both span.1 span.2 position parts

-- What all the windows keep of one part.
def chosenIn (scope : Option String) (spans : List (Nat × Nat)) (placed : Nat × Part) : List Part :=
  spans.flatMap fun span => keptIn scope .both span.1 span.2 placed

-- Two walks over a list are one if nothing that the first takes comes after something that the second takes.
theorem flatMap_append_flatMap {α β : Type} {f g : α → List β} {xs : List α}
    (apart : xs.Pairwise fun x y => g x = [] ∨ f y = []) :
    xs.flatMap f ++ xs.flatMap g = xs.flatMap fun x => f x ++ g x := by
  induction apart with
  | nil => rfl
  | @cons x xs first apart ih =>
    simp only [List.flatMap_cons,← ih]
    by_cases nothing : g x = []
    · simp [nothing]
    · have none : xs.flatMap f = [] := List.flatMap_eq_nil_iff.mpr fun y member => (first y member).resolve_left nothing
      simp [none]

-- A window that ends before a part, or begins behind all that the part shows, keeps nothing of it.
theorem keptIn_outside {start stop : Nat} (proper : start ≤ stop)
    (outside : stop < placed.1 ∨ placed.1 + widthOf scope placed.2 < start) : keptIn scope .both start stop placed = [] := by
  cases visible : placed.2.visibleTo scope with
  | true =>
    simp only [widthOf,visible,↓reduceIte] at outside
    simpa [keptIn,visible] using Part.between_outside (by omega)
  | false =>
    have dropped : ¬ Boundary.both.keeps start stop placed.1 = true := by
      rw [Boundary.keeps_both proper]
      omega
    simp [keptIn,visible,dropped]

theorem selectionFrom_eq (apart : Apart spans) :
    selectionFrom scope spans position parts = (placedFrom scope position parts).flatMap (chosenIn scope spans) := by
  induction spans with
  | nil => simp [selectionFrom,chosenIn]
  | cons span spans ih =>
    have proper := apart.proper span (by simp)
    have later := ih apart.tail
    simp only [selectionFrom,windowFrom,List.flatMap_cons] at later ⊢
    rw [later,flatMap_append_flatMap]
    · rfl
    · refine (placedFrom_sorted scope position parts).imp fun {one two} sorted => ?_
      by_cases reached : span.2 < two.1
      · exact Or.inr (keptIn_outside proper (Or.inl reached))
      · refine Or.inl (List.flatMap_eq_nil_iff.mpr fun next member => ?_)
        have behind := apart.after next member
        exact keptIn_outside (apart.tail.proper next member) (Or.inr (by omega))

theorem chosenIn_hidden (hidden : placed.2.visibleTo scope = false) (apart : Apart spans) :
    chosenIn scope spans placed =
      if spans.any fun span => decide (span.1 ≤ placed.1 ∧ placed.1 ≤ span.2) then [placed.2] else [] := by
  induction spans with
  | nil => rfl
  | cons span spans ih =>
    have later := ih apart.tail
    have same : chosenIn scope (span :: spans) placed =
        (if span.1 ≤ placed.1 ∧ placed.1 ≤ span.2 then [placed.2] else []) ++ chosenIn scope spans placed := by
      simp only [chosenIn,List.flatMap_cons,keptIn,hidden,Bool.false_eq_true,↓reduceIte,
        Boundary.keeps_both (apart.proper span (by simp))]
    by_cases here : span.1 ≤ placed.1 ∧ placed.1 ≤ span.2
    · have others : spans.any (fun span => decide (span.1 ≤ placed.1 ∧ placed.1 ≤ span.2)) = false := by
        rw [List.any_eq_false]
        intro next member
        have behind := apart.after next member
        simp only [decide_eq_true_eq]
        omega
      rw [same,later,others]
      simp [here]
    · rw [same,later,if_neg here,List.nil_append,List.any_cons,decide_eq_false here,Bool.false_or]

-- The pieces of one text are a part of what is left of it behind any offset before the first of them.
theorem pieces_sublist {first : Nat} (position : Nat) (t : Text) (apart : Apart spans)
    (before : ∀ span ∈ spans, first ≤ span.1) :
    (spans.flatMap fun span => (t.take (span.2 - position)).drop (span.1 - position)).Sublist
      (t.drop (first - position)) := by
  induction spans generalizing first with
  | nil => exact List.nil_sublist _
  | cons span spans ih =>
    have proper := apart.proper span (by simp)
    have begins := before span (by simp)
    have later := ih apart.tail fun next member => Nat.le_of_lt (apart.after next member)
    have split : t.drop (first - position) =
        (t.take (span.2 - position)).drop (first - position) ++ t.drop (span.2 - position) := by
      have cut := List.take_append_drop (span.2 - position - (first - position)) (t.drop (first - position))
      rw [List.drop_drop,show first - position + (span.2 - position - (first - position)) = span.2 - position by omega]
        at cut
      rw [List.drop_take,cut]
    rw [List.flatMap_cons,split]
    exact .append (List.drop_sublist_drop_left _ (by omega)) later

theorem visibleContentOf_flatMap {α : Type} (f : α → List Part) (items : List α) :
    visibleContentOf scope (items.flatMap f) = items.flatMap fun item => visibleContentOf scope (f item) := by
  induction items with
  | nil => rfl
  | cons item items ih => rw [List.flatMap_cons,List.flatMap_cons,visibleContentOf_append,ih]

theorem visibleContentOf_placed (scope observer : Option String) (position : Nat) (parts : List Part) :
    visibleContentOf observer parts =
      (placedFrom scope position parts).flatMap fun placed => visibleContentOf observer [placed.2] := by
  induction parts generalizing position with
  | nil => rfl
  | cons part rest ih =>
    rw [placedFrom,List.flatMap_cons,← ih,← List.singleton_append,visibleContentOf_append]

theorem visibleContentOf_chosen (apart : Apart spans) (observer : Option String) :
    (visibleContentOf observer (chosenIn scope spans placed)).Sublist (visibleContentOf observer [placed.2]) := by
  cases visible : placed.2.visibleTo scope with
  | false =>
    rw [chosenIn_hidden visible apart]
    split
    · exact .refl _
    · exact List.nil_sublist _
  | true =>
    rw [chosenIn,visibleContentOf_flatMap]
    cases seen : placed.2.visibleTo observer with
    | false => simp [keptIn,visible,visibleContentOf_keep,Part.between,visibleContentOf_cons,seen]
    | true =>
      have pieces := pieces_sublist placed.1 placed.2.content apart fun span _ => Nat.zero_le span.1
      simpa [keptIn,visible,visibleContentOf_keep,Part.between,visibleContentOf_cons,seen] using pieces

-- An observer sees no more of a selection than of the parts it is made of.
theorem visibleContentOf_selection (apart : Apart spans) (observer : Option String) :
    (visibleContentOf observer (selectionFrom scope spans position parts)).Sublist (visibleContentOf observer parts) := by
  rw [selectionFrom_eq apart,visibleContentOf_flatMap,visibleContentOf_placed scope observer position parts]
  induction placedFrom scope position parts with
  | nil => exact .refl _
  | cons placed rest ih => exact .append (visibleContentOf_chosen apart observer) ih

-- The hidden parts of a selection are those that stand in one of its windows, the ends included.
theorem selectionFrom_hides (apart : Apart spans) :
    (selectionFrom scope spans position parts).filter (fun part => !part.visibleTo scope) =
      ((hiddenFrom scope position parts).filter fun placed =>
        spans.any fun span => decide (span.1 ≤ placed.1 ∧ placed.1 ≤ span.2)).map Prod.snd := by
  rw [selectionFrom_eq apart,hiddenFrom]
  induction placedFrom scope position parts with
  | nil => rfl
  | cons placed rest ih =>
    rw [List.flatMap_cons,List.filter_append,ih]
    cases visible : placed.2.visibleTo scope with
    | false =>
      rw [chosenIn_hidden visible apart,List.filter_cons_of_pos (by simp [visible]),List.filter_cons]
      split <;> simp [visible]
    | true =>
      have none : (chosenIn scope spans placed).filter (fun part => !part.visibleTo scope) = [] := by
        rw [List.filter_eq_nil_iff]
        intro piece member
        obtain ⟨span,_,kept⟩ := List.mem_flatMap.mp member
        simp only [keptIn,visible,↓reduceIte,Part.keep] at kept
        split at kept
        · cases kept
        · cases List.mem_singleton.mp kept
          simp [Part.between,visible]
      rw [none,List.filter_cons_of_neg (by simp [visible]),List.nil_append]

end Draft
end LightMarkup
