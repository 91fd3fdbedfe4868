import LightMarkup.Proofs.Construct.Applying
import LightMarkup.Proofs.Construct.Recutting
import LightMarkup.Proofs.Draft.Joining

/-!
Units of text that are put into one draft. As long as no match goes over a seam between them, and the constructs that
look around their matches find in the whole what they find in each unit alone, constructs make of the whole what they
make of the units one by one.
-/

namespace LightMarkup

theorem forall₂_then {α β γ : Type} {R : α → β → Prop} {S : β → γ → Prop} {xs : List α} {ys : List β} {zs : List γ}
    (one : List.Forall₂ R xs ys) (two : List.Forall₂ S ys zs) :
    List.Forall₂ (fun x z => ∃ y, R x y ∧ S y z) xs zs := by
  induction one generalizing zs with
  | nil =>
    cases two
    exact .nil
  | cons here _ ih =>
    cases two with
    | cons there later => exact .cons ⟨_,here,there⟩ (ih later)

namespace Construct

open Draft

variable {c : Construct} {constructs : List Construct} {settings : CompileSettings} {context : Context} {d e : Draft}
  {units outs : List (List Part)} {parts : List Part}

-- What a construct sees of the units.
def shows (c : Construct) (units : List (List Part)) : List Text :=
  units.map (visibleContentOf (some c.name))

theorem shows_flatten (c : Construct) (units : List (List Part)) :
    (c.shows units).flatten = visibleContentOf (some c.name) units.flatten := by
  induction units with
  | nil => rfl
  | cons unit units ih => rw [List.flatten_cons,visibleContentOf_append,← ih]; rfl

-- No match goes over a seam, or, where a construct looks around its matches, it finds what it finds in each unit alone.
def separates (c : Construct) (units : List (List Part)) : Bool :=
  let spans := spansOf c.name c.pattern ⟨units.flatten,none,none⟩
  if c.pattern.looksOnly [] then spans.all fun span => (seams (c.shows units)).all fun seam => !crosses seam span
  else spans == c.pattern.spansAlone (c.shows units)

theorem spansOf_separate (member : c ∈ Inline.standard) (apart : c.separates units = true) :
    spansOf c.name c.pattern ⟨units.flatten,none,none⟩ = c.pattern.spansAlone (c.shows units) := by
  unfold separates at apart
  dsimp only at apart
  split at apart
  · rename_i looks
    simp only [List.all_eq_true,Bool.not_eq_true'] at apart
    rw [spansOf,← shows_flatten] at apart ⊢
    exact Pattern.occurrences_flatten looks (Inline.standard_eats member) apart
  · simpa using apart

-- A match in the one or in the other parts is handed over as from them alone.
theorem Rewrites.split {one two : List Part} {spans others : List (Nat × Nat)} {nuid : Option Text}
    (ordered : InOrder 0 (visibleContentOf (some c.name) one).length spans)
    (follow : InOrder 0 (visibleContentOf (some c.name) two).length others)
    (ran : c.Rewrites settings context nuid (one ++ two)
      (spans ++ others.map (shifted (visibleContentOf (some c.name) one).length)) outs) :
    ∃ here later, outs = here ++ later ∧ c.Rewrites settings context nuid one spans here ∧
      c.Rewrites settings context nuid two others later := by
  have here := (List.forall₂_take_append _ _ _ ran.flip).flip
  have later := (List.forall₂_drop_append _ _ _ ran.flip).flip
  rw [List.forall₂_map_left_iff] at later
  refine ⟨_,_,(List.take_append_drop spans.length outs).symm,?_,?_⟩
  · refine ((List.forall₂_and_left _ _).mpr ⟨ordered.within,here⟩).imp fun span out member => ?_
    obtain ⟨⟨_,some,inside⟩,run⟩ := member
    rwa [matchedAt_left some inside] at run
  · refine ((List.forall₂_and_left _ _).mpr ⟨follow.within,later⟩).imp fun span out member => ?_
    obtain ⟨⟨_,some,_⟩,run⟩ := member
    rwa [matchedAt_right some] at run

-- The matches of the whole are those of the units, and what is put in their place is put into the units.
theorem rewrites_units (ran : c.Rewrites settings context none units.flatten (c.pattern.spansAlone (c.shows units)) outs) :
    ∃ made : List (List Part), List.Forall₂ (fun unit out =>
        (c.apply settings context ⟨unit,none,none⟩).outcome = .ok ⟨out,none,none⟩) units made ∧
      atoms made.flatten = atoms (spliced (some c.name) units.flatten (visibleContentOf (some c.name) units.flatten).length 0
        (c.pattern.spansAlone (c.shows units)) outs) := by
  induction units generalizing outs with
  | nil => exact ⟨[],.nil,rfl⟩
  | cons unit units ih =>
    have split : c.pattern.spansAlone (c.shows (unit :: units)) = spansOf c.name c.pattern ⟨unit,none,none⟩ ++
        (c.pattern.spansAlone (c.shows units)).map (shifted (visibleContentOf (some c.name) unit).length) := rfl
    have ordered := spansOf_inOrder c.name c.pattern ⟨unit,none,none⟩
    have follow := c.pattern.spansAlone_inOrder (c.shows units)
    rw [shows_flatten] at follow
    rw [split,List.flatten_cons] at ran ⊢
    obtain ⟨here,later,rfl,first,others⟩ := ran.split ordered follow
    obtain ⟨out,applied,same⟩ := rewrites_apply (d := ⟨unit,none,none⟩) first
    obtain ⟨made,each,rest⟩ := ih others
    refine ⟨out :: made,.cons applied each,?_⟩
    rw [spliced_append ordered follow first.length_eq,List.flatten_cons,atoms_append,atoms_append,same,rest]

-- One step.
theorem apply_separate (member : c ∈ Inline.standard) (apart : c.separates units = true)
    (same : atoms d.parts = atoms units.flatten) (run : (c.apply settings context d).outcome = .ok e) :
    ∃ made : List (List Part), List.Forall₂ (fun unit out =>
      (c.apply settings context ⟨unit,none,none⟩).outcome = .ok ⟨out,none,none⟩) units made ∧
        atoms e.parts = atoms made.flatten := by
  obtain ⟨joined,applied,recut⟩ := apply_recut (e := ⟨units.flatten,none,none⟩) (Inline.standard_nameless c member)
    same.symm run
  obtain ⟨outs,ran,whole⟩ := apply_rewrites applied
  rw [spansOf_separate member apart] at ran whole
  obtain ⟨made,each,parts⟩ := rewrites_units ran
  exact ⟨made,each,by rw [← recut,whole,parts]⟩

-- A construct applied to each unit alone.
def applyAlone (c : Construct) (settings : CompileSettings) (context : Context) (units : List (List Part)) :
    Logged (List (List Part)) :=
  units.mapM fun unit => do
    let d ← c.apply settings context ⟨unit,none,none⟩
    pure d.parts

-- Every construct keeps the units apart that the constructs before it have left, each on its own.
def separate (settings : CompileSettings) (context : Context) : List Construct → List (List Part) → Bool
  | [], _ => true
  | c :: constructs, units =>
    if settings.excluded.contains c.name then separate settings context constructs units
    else c.separates units && match (c.applyAlone settings context units).outcome with
      | .ok units => separate settings context constructs units
      | .error _ => true

-- A whole run, over any constructs in any order.
theorem applyEach_separate (members : constructs ⊆ Inline.standard)
    (apart : separate settings context constructs units = true) (same : atoms d.parts = atoms units.flatten)
    (run : (applyEach settings context constructs d).outcome = .ok e) :
    ∃ made : List (List Part), List.Forall₂ (fun unit out =>
      (applyEach settings context constructs ⟨unit,none,none⟩).outcome = .ok ⟨out,none,none⟩) units made ∧
        atoms e.parts = atoms made.flatten := by
  induction constructs generalizing d units with
  | nil =>
    cases run
    exact ⟨units,List.forall₂_same.mpr fun unit _ => rfl,same⟩
  | cons c constructs ih =>
    obtain ⟨member,others⟩ := List.cons_subset.mp members
    by_cases excluded : settings.excluded.contains c.name = true
    · simp only [applyEach_skipped excluded,separate,excluded,↓reduceIte] at run apart ⊢
      exact ih others apart same run
    · simp only [separate,excluded,Bool.false_eq_true,↓reduceIte,Bool.and_eq_true] at apart
      obtain ⟨here,later⟩ := apart
      rw [applyEach_applied excluded] at run
      obtain ⟨next,first,rest⟩ := Logged.outcome_bind_ok.mp run
      obtain ⟨units',each,parts⟩ := apply_separate member here same first
      have alone : (c.applyAlone settings context units).outcome = .ok units' := by
        refine Logged.mapM_all (each.imp fun unit out applied => ?_)
        exact Logged.outcome_bind_ok.mpr ⟨_,applied,rfl⟩
      rw [alone] at later
      obtain ⟨made,runs,whole⟩ := ih others later parts rest
      refine ⟨made,(forall₂_then each runs).imp fun unit out both => ?_,whole⟩
      obtain ⟨_,applied,ran⟩ := both
      rw [applyEach_applied excluded]
      exact Logged.outcome_bind_ok.mpr ⟨_,applied,ran⟩

theorem compile_separate (members : constructs ⊆ Inline.standard)
    (apart : separate settings context constructs units = true) (same : atoms d.parts = atoms units.flatten)
    (run : (d.compile constructs settings context).outcome = .ok e) :
    ∃ made : List (List Part), List.Forall₂ (fun unit out =>
      ((⟨unit,none,none⟩ : Draft).compile constructs settings context).outcome = .ok ⟨out,none,none⟩) units made ∧
        atoms e.parts = atoms made.flatten := by
  unfold Draft.compile at run ⊢
  split at run
  · rename_i all
    cases run
    exact ⟨units,List.forall₂_same.mpr fun unit _ => by rw [if_pos all]; rfl,same⟩
  · rename_i some
    simp only [some,↓reduceIte]
    exact applyEach_separate members apart same run

end Construct
end LightMarkup
