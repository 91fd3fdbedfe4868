import LightMarkup.Proofs.Construct.Emitting
import LightMarkup.Proofs.Construct.Rematching
import LightMarkup.Proofs.Construct.Wrapping
import LightMarkup.Proofs.Draft.Fragments

/-!
Drafts with like atoms. What a standard construct makes of a draft depends on its fixed parts and live characters only:
how the live text is cut into parts makes no difference, and nor does the NUID, which no inline construct writes. The
constructs go in step on such drafts, with the same log, and fail on both or on none.
-/

namespace LightMarkup

-- Pieces that do not write the NUID of the draft.
def Piece.nameless : Piece → Bool
  | .template items _ _ _ => items.all fun
    | .text _ => true
    | .group key => key != "nuid"
  | .opening _ _ _ _ withNuid => !withNuid
  | .codeOpening => false
  | _ => true

def Construct.nameless (c : Construct) : Bool :=
  match c.rewrite with
  | .pieces pieces => pieces.all Piece.nameless
  | _ => true

theorem Inline.standard_nameless : ∀ c ∈ standard, c.nameless = true := by
  have all : standard.all Construct.nameless = true := by decide +kernel
  exact List.all_eq_true.mp all

variable {R : Exclusion → Exclusion → Prop} (likeness : Exclusion.Likeness R)

namespace Draft

variable {parts : List Part} {d e : Draft}

-- Drafts with like atoms, looked at by the same construct.
structure Recut (R : Exclusion → Exclusion → Prop) (d e : Draft) : Prop where
  scope : e.scope = d.scope
  like : Like R d.parts e.parts

include likeness in
theorem Recut.visibleContent (recut : Recut R d e) : e.visibleContent = d.visibleContent := by
  rw [Draft.visibleContent,recut.scope,← recut.like.visibleContentOf likeness]
  rfl

include likeness in
theorem Recut.slice (recut : Recut R d e) (start stop : Nat) :
    Failure.Agree (Like R) (d.slice start stop .both) (e.slice start stop .both) := by
  simp only [Draft.slice,recut.visibleContent likeness,recut.scope,Boundary.both,↓reduceIte,sliceFrom_eq]
  split
  · exact .error _
  · split
    · exact .error _
    · exact .ok (recut.like.window likeness ..)

-- The whole text is a stretch.
theorem stretch_whole (scope : Option String) (parts : List Part) :
    atoms (stretch scope parts 0 (visibleContentOf scope parts).length) = atoms parts := by
  have alone : atoms parts = [] ++ (atoms parts ++ []) := by simp
  refine stretch_atoms alone rfl (by rw [visibleContentOf_atoms,Nat.zero_add]) ?_ ?_ <;>
  · intro part none
    cases none

end Draft

namespace Rewriting

open Draft

variable {r : Rewriting} {d e : Draft} {piece : Piece} {pieces : List Piece} {items : Template}
  {links identifiers : List GroupKey}

-- The same match on another draft.
def on (r : Rewriting) (e : Draft) : Rewriting :=
  { r with draft := e }

theorem expand_on (nameless : items.all (fun | .text _ => true | .group key => key != "nuid") = true) :
    (r.on e).expand links identifiers items = r.expand links identifiers items := by
  induction items with
  | nil => rfl
  | cons item items ih =>
    rw [List.all_cons,Bool.and_eq_true] at nameless
    cases item with
    | text t => rw [expand,expand,ih nameless.2]
    | group key =>
      have other : key ≠ "nuid" := by simpa using nameless.1
      have group : (r.on e).expandGroup links identifiers key = r.expandGroup links identifiers key := by
        rw [expandGroup,expandGroup,if_neg (by simp [other]),if_neg (by simp [other])]
        rfl
      rw [expand,expand,ih nameless.2,group]

-- Each character is copied, and escaped, for itself.
theorem captured_cut (escape : Bool) (parts : List Part) :
    atoms ((atoms parts).map (r.captured escape)) = atoms (parts.map (r.captured escape)) := by
  induction parts with
  | nil => rfl
  | cons part parts ih =>
    rw [atoms_cons,List.map_append,atoms_append,ih,List.map_cons,atoms_cons]
    congr 1
    cases part with
    | fixed content => rfl
    | live content excluded =>
      have seen : ∀ c, r.draft.isVisible (.live [c] excluded) = r.draft.isVisible (.live content excluded) := by
        intro c
        simp only [isVisible]
        cases r.draft.scope <;> rfl
      simp only [Part.atoms,captured,List.map_map,Function.comp_def,seen,atoms,List.flatMap_map]
      cases escape && r.draft.isVisible (.live content excluded) with
      | true => simp [Html.escape,List.map_flatMap]
      | false => exact (List.map_eq_flatMap ..).symm

section

include likeness

theorem captured_on (scope : e.scope = r.draft.scope) (escape : Bool) {parts others : List Part}
    (like : Like R parts others) : Like R (parts.map (r.captured escape)) (others.map ((r.on e).captured escape)) := by
  rw [Like,← captured_cut (r := r),← captured_cut (r := r.on e)]
  rw [Like] at like
  generalize atoms parts = parts at like
  generalize atoms others = others at like
  induction like with
  | nil => exact .nil
  | cons here _ ih =>
    refine List.rel_append ?_ ih
    cases here with
    | fixed content => exact .cons (.fixed content) .nil
    | @live content x y same =>
      have seen : (r.on e).draft.isVisible (.live content y) = r.draft.isVisible (.live content x) := by
        rw [isVisible,isVisible,show (r.on e).draft = e from rfl,scope,alike_visible likeness (.live content same)]
      have more : R (x.combine r.construct.excluded) (y.combine (r.on e).construct.excluded) := likeness.combine same _
      simp only [captured,seen,Part.atoms]
      rw [List.forall₂_map_left_iff,List.forall₂_map_right_iff,List.forall₂_same]
      exact fun c _ => .live [c] more

theorem build_on (nameless : piece.nameless = true) (recut : Recut R r.draft e) :
    Failure.Agree (Like R) (r.build piece) ((r.on e).build piece) := by
  cases piece with
  | template items links identifiers replacements =>
    simp only [build]
    rw [expand_on nameless]
    exact .bind (.same (R := Eq) fun _ => rfl) fun text _ same => same ▸ .ok (Like.fixed _)
  | capture group escape =>
    refine .bind (.same (R := Eq) fun _ => rfl) fun n _ same => ?_
    subst same
    rw [show (r.on e).found = r.found from rfl]
    cases r.found.groupSpan? n with
    | none => exact .ok Like.nil
    | some span => exact (recut.slice likeness ..).bind fun _ _ like => .ok (captured_on likeness recut.scope escape like)
  | opening tag baseClass style identifier withNuid =>
    obtain rfl : withNuid = false := by simpa [Piece.nameless] using nameless
    exact .bind (.same (R := Eq) fun _ => rfl) fun anchor _ same => same ▸ .ok (Like.fixed _)
  | codeOpening => cases nameless
  | whole => exact .ok recut.like

theorem buildAll_on (nameless : pieces.all Piece.nameless = true) (recut : Recut R r.draft e) :
    Failure.Agree (Like R) (r.buildAll pieces) ((r.on e).buildAll pieces) := by
  induction pieces with
  | nil => exact .ok Like.nil
  | cons piece pieces ih =>
    rw [List.all_cons,Bool.and_eq_true] at nameless
    exact (build_on likeness nameless.1 recut).bind fun _ _ first => (ih nameless.2).bind fun _ _ rest =>
      .ok (first.append rest)

omit likeness

-- What is not looked up is left as it is, and that is the whole draft.
theorem lookup_on {rewrite : Rewrite} (looks : rewrite = .reference ∨ rewrite = .citation) (recut : Recut R r.draft e) :
    Logged.Agree (Like R) (r.parts rewrite) ((r.on e).parts rewrite) := by
  rcases looks with rfl | rfl
  all_goals
    dsimp only [parts,reference,citation,on]
    split
    · exact .pure (Like.fixed _)
    · split
      · exact .bind (.same (R := Eq) (fun _ => rfl) _) fun _ _ _ => .pure recut.like
      · exact .bind (.same (R := Eq) (fun _ => rfl) _) fun _ _ _ => .pure recut.like

theorem greekLetters_on : Logged.Agree (Like R) r.greekLetters (r.on e).greekLetters := by
  dsimp only [greekLetters,on]
  split
  · split
    · exact .bind (.same (R := Eq) (fun _ => rfl) _) fun _ _ _ => .pure (Like.fixed _)
    · exact .bind (.same (R := Eq) (fun _ => rfl) _) fun _ _ _ => .pure (Like.fixed _)
  · exact .pure (Like.fixed _)

end

end Rewriting

namespace Construct

open Draft

variable {c : Construct} {settings : CompileSettings} {context : Context} {d e f : Draft} {outs : List (List Part)}

section

include likeness

theorem rewriteMatch_recut (nameless : c.nameless = true) (recut : Recut R d e) :
    Logged.Agree (Like R) (c.rewriteMatch settings context d) (c.rewriteMatch settings context e) := by
  unfold rewriteMatch
  rw [recut.visibleContent likeness]
  cases c.pattern.search? d.visibleContent with
  | none => exact ⟨rfl,.error _⟩
  | some found =>
    unfold Construct.nameless at nameless
    cases rewrites : c.rewrite with
    | pieces pieces =>
      simp only [rewrites] at nameless
      exact .ofExcept (Rewriting.buildAll_on (r := ⟨c,settings,context,d,found⟩) likeness nameless recut)
    | greekLetters => exact Rewriting.greekLetters_on (r := ⟨c,settings,context,d,found⟩)
    | reference | citation => exact Rewriting.lookup_on (r := ⟨c,settings,context,d,found⟩) (by simp) recut

-- One step.
theorem apply_like (nameless : c.nameless = true) (like : Like R d.parts e.parts) :
    Logged.Agree (fun f g => Like R f.parts g.parts) (c.apply settings context d) (c.apply settings context e) := by
  have visible := like.visibleContentOf likeness (some c.name)
  have spans : spansOf c.name c.pattern e = spansOf c.name c.pattern d := by rw [spansOf,spansOf,visible]
  rw [apply,apply,applyAt_eq (spansOf_inOrder ..),applyAt_eq (spansOf_inOrder ..),spans,← visible]
  split
  · exact .pure like
  · refine .bind (.same (R := Eq) (fun _ => rfl) _) fun _ _ _ => .bind (.mapM fun span _ => ?_) fun outs made each =>
      .pure (like.spliced likeness each ..)
    exact rewriteMatch_recut likeness nameless ⟨rfl,like.window likeness ..⟩

end

-- Every match has been rewritten with success.
def Rewrites (c : Construct) (settings : CompileSettings) (context : Context) (nuid : Option Text) (parts : List Part)
    (spans : List (Nat × Nat)) (outs : List (List Part)) : Prop :=
  List.Forall₂ (fun span out => (c.rewriteMatch settings context
    ⟨matchedAt (some c.name) parts span,nuid,some c.name⟩).outcome = .ok out) spans outs

-- Up to the atoms, a draft without matches is spliced too.
theorem apply_rewrites (run : (c.apply settings context d).outcome = .ok e) :
    ∃ outs, c.Rewrites settings context d.nuid d.parts (spansOf c.name c.pattern d) outs ∧
      atoms e.parts = atoms (spliced (some c.name) d.parts (visibleContentOf (some c.name) d.parts).length 0
        (spansOf c.name c.pattern d) outs) := by
  rcases applyAt_ok (spansOf_inOrder c.name c.pattern d) run with ⟨none,rfl⟩ | ⟨outs,ran,rfl⟩
  · rw [none]
    exact ⟨[],.nil,(stretch_whole _ _).symm⟩
  · exact ⟨outs,ran,rfl⟩

theorem rewrites_apply (ran : c.Rewrites settings context d.nuid d.parts (spansOf c.name c.pattern d) outs) :
    ∃ parts, (c.apply settings context d).outcome = .ok ⟨parts,d.nuid,d.scope⟩ ∧
      atoms parts = atoms (spliced (some c.name) d.parts (visibleContentOf (some c.name) d.parts).length 0
        (spansOf c.name c.pattern d) outs) := by
  rw [apply,applyAt_eq (spansOf_inOrder c.name c.pattern d)]
  split
  · rename_i none
    rw [none] at ran ⊢
    cases ran
    exact ⟨d.parts,rfl,(stretch_whole _ _).symm⟩
  · exact ⟨_,Logged.outcome_bind_ok.mpr ⟨(),rfl,Logged.outcome_bind_ok.mpr ⟨outs,Logged.mapM_all ran,rfl⟩⟩,rfl⟩

-- With the very same atoms.
theorem apply_recut (nameless : c.nameless = true) (same : atoms e.parts = atoms d.parts)
    (run : (c.apply settings context d).outcome = .ok f) :
    ∃ g, (c.apply settings context e).outcome = .ok g ∧ atoms g.parts = atoms f.parts := by
  have agree : Logged.Agree _ (c.apply settings context d) (c.apply settings context e) :=
    apply_like Exclusion.likeness_eq nameless (like_eq.mpr same.symm)
  obtain ⟨g,applied,like⟩ := agree.2.ok_left run
  exact ⟨g,applied,(like_eq.mp like).symm⟩

end Construct
end LightMarkup
