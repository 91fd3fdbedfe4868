import LightMarkup.Proofs.Construct.Applying
import LightMarkup.Proofs.Construct.Recutting

/-!
Fragmentation is not seen. What the constructs make of two fragmentations of one draft are again fragmentations of one
draft, and a run that fails on the one fails in the same way on the other.
-/

namespace LightMarkup

-- One draft cut into live parts in two ways.
structure Draft.Refragmented (d e : Draft) : Prop where
  parts : Draft.Fragments d.parts e.parts
  nuid : d.nuid = e.nuid
  scope : d.scope = e.scope

namespace Construct

open Draft

variable {R : Exclusion → Exclusion → Prop} {constructs : List Construct} {settings : CompileSettings} {context : Context}
  {d e : Draft}

theorem applyEach_like (likeness : Exclusion.Likeness R) (members : constructs ⊆ Inline.standard)
    (like : Like R d.parts e.parts) : Logged.Agree (fun f g => Like R f.parts g.parts)
      (applyEach settings context constructs d) (applyEach settings context constructs e) := by
  induction constructs generalizing d e with
  | nil => exact .pure like
  | cons c constructs ih =>
    obtain ⟨member,others⟩ := List.cons_subset.mp members
    by_cases excluded : settings.excluded.contains c.name = true
    · rw [applyEach_skipped excluded,applyEach_skipped excluded]
      exact ih others like
    · rw [applyEach_applied excluded,applyEach_applied excluded]
      exact (apply_like likeness (Inline.standard_nameless c member) like).bind fun _ _ next => ih others next

theorem compile_like (likeness : Exclusion.Likeness R) (members : constructs ⊆ Inline.standard)
    (like : Like R d.parts e.parts) : Logged.Agree (fun f g => Like R f.parts g.parts)
      (d.compile constructs settings context) (e.compile constructs settings context) := by
  unfold Draft.compile
  split
  · exact .pure like
  · exact applyEach_like likeness members like

-- NUID and scope go through a run as they are.
theorem compile_keeps (run : (d.compile constructs settings context).outcome = .ok e) :
    e.nuid = d.nuid ∧ e.scope = d.scope := by
  refine compile_induct (I := fun e => e.nuid = d.nuid ∧ e.scope = d.scope) ?_ ⟨rfl,rfl⟩ run
  intro c _ before after kept step
  rcases applyAt_ok (spansOf_inOrder c.name c.pattern before) step with ⟨_,rfl⟩ | ⟨outs,_,rfl⟩ <;> exact kept

-- The same log, and results that are fragmentations of one another, with the same text for every reader, or the same failure.
theorem fragments_unseen (members : constructs ⊆ Inline.standard) (settings : CompileSettings) (context : Context)
    (same : d.Refragmented e) : Logged.Agree
      (fun f g => f.Refragmented g ∧ f.content = g.content ∧
        ∀ scope, visibleContentOf scope f.parts = visibleContentOf scope g.parts)
      (d.compile constructs settings context) (e.compile constructs settings context) := by
  have like := fragments_iff.mp same.parts
  refine (compile_like Exclusion.likeness_agree members like).imp fun f g one two like => ?_
  obtain ⟨nuid,scope⟩ := compile_keeps one
  obtain ⟨otherNuid,otherScope⟩ := compile_keeps two
  refine ⟨⟨fragments_iff.mpr like,?_,?_⟩,like.contentOf,like.visibleContentOf Exclusion.likeness_agree⟩
  · rw [nuid,otherNuid,same.nuid]
  · rw [scope,otherScope,same.scope]

-- Marks that are cut in two, with empty parts in them, and exclusions that name the same constructs in another order.
def uncut : Draft :=
  ⟨[.live ['*','*','a'] .nothing,.fixed ['|'],.live ['*','*'] (.listed ["link","emoji"])],none,none⟩

def shattered : Draft :=
  ⟨[.live ['*'] .nothing,.live [] .everything,.live ['*'] .nothing,.live ['a'] .nothing,.fixed ['|'],
    .live ['*'] (.listed ["link","emoji"]),.live ['*'] (.listed ["emoji","link"])],none,none⟩

theorem fragments_unseen_marks : Inline.standard ⊆ Inline.standard ∧ uncut.Refragmented shattered ∧
    Logged.Agree
      (fun f g => f.Refragmented g ∧ f.content = g.content ∧
        ∀ scope, visibleContentOf scope f.parts = visibleContentOf scope g.parts)
      (uncut.compile Inline.standard {} ⟨none,none⟩) (shattered.compile Inline.standard {} ⟨none,none⟩) := by
  have same : uncut.Refragmented shattered := by
    refine ⟨fragments_iff.mpr ?_,rfl,rfl⟩
    exact .cons (.live _ rfl) (.cons (.live _ rfl) (.cons (.live _ rfl) (.cons (.fixed _)
      (.cons (.live _ rfl) (.cons (.live _ (show Exclusion.agrees _ _ = true by decide)) .nil)))))
  exact ⟨List.Subset.refl _,same,fragments_unseen (List.Subset.refl _) {} ⟨none,none⟩ same⟩

end Construct
end LightMarkup
