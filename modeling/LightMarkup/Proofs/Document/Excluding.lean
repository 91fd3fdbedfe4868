import LightMarkup.Catalogue
import LightMarkup.Proofs.Complaints
import LightMarkup.Proofs.Construct.Applying
import LightMarkup.Proofs.Construct.Emitting

/-!
Excluding constructs by the settings. A construct that the settings exclude is passed over in every text, as if the
catalogue did not have it: whatever is compiled, the two ways of doing without a construct are one and the same run.
-/

namespace LightMarkup

def CompileSettings.excluding (names : List String) (settings : CompileSettings) : CompileSettings :=
  { settings with excluded := settings.excluded.combine (.ofList names) }

variable {names : List String} {settings : CompileSettings}

theorem Exclusion.combine_ofList (a : Exclusion) (names : List String) :
    a.combine (.ofList names) = .everything ↔ a = .everything := by
  cases a <;> simp [combine,ofList]

theorem Exclusion.contains_ofList (names : List String) (name : String) :
    (ofList names).contains name = names.contains name := by
  simp [contains,ofList]

-- Runs that are the same go in step.
theorem same_lockstep : Lockstep fun one two => one = two where
  except _ := rfl
  write _ := rfl
  bind := by
    intro α β x y f g same later
    subst same
    cases ran : x.outcome with
    | ok a => rw [Logged.bind_ok ran,Logged.bind_ok ran,later a ran]
    | error failure => rw [Logged.bind_error ran,Logged.bind_error ran]

theorem CompileSettings.excluding_step (names : List String) (settings : CompileSettings) :
    settings.InStep (fun one two => one = two) (settings.excluding names) where
  bullets := rfl
  references := rfl
  bibliography := rfl
  embedLocal := rfl
  embedRemote := rfl
  location := rfl
  lists _ := rfl
  greekLetters _ := rfl
  reference _ := rfl
  citation _ := rfl
  sources _ := rfl

namespace Construct

-- No construct reads what is excluded.
theorem apply_excluding (c : Construct) (names : List String) (settings : CompileSettings) (context : Context) (d : Draft) :
    c.apply settings context d = c.apply (settings.excluding names) context d :=
  apply_step same_lockstep (fun context _ _ _ =>
    c.rewriteMatch_step same_lockstep (settings.excluding_step names) context _ fun _ => rfl) context d

theorem applyEach_excluding (names : List String) (settings : CompileSettings) (context : Context)
    (constructs : List Construct) (d : Draft) :
    applyEach settings context (constructs.filter fun c => !names.contains c.name) d =
      applyEach (settings.excluding names) context constructs d := by
  induction constructs generalizing d with
  | nil => rfl
  | cons c rest ih =>
    have either : (settings.excluding names).excluded.contains c.name =
        (settings.excluded.contains c.name || names.contains c.name) := by
      rw [CompileSettings.excluding,Exclusion.contains_combine,Exclusion.contains_ofList]
    cases named : names.contains c.name with
    | true =>
      rw [List.filter_cons_of_neg (by rw [named]; decide),applyEach_skipped (by rw [either,named,Bool.or_true]),ih]
    | false =>
      rw [List.filter_cons_of_pos (by rw [named]; rfl)]
      cases excluded : settings.excluded.contains c.name with
      | true => rw [applyEach_skipped excluded,applyEach_skipped (by rw [either,excluded,Bool.true_or]),ih]
      | false =>
        rw [applyEach_applied (by simp [excluded]),applyEach_applied (by rw [either,excluded,named]; decide),
          c.apply_excluding names]
        exact congrArg (_ >>= ·) (funext ih)

end Construct

theorem Draft.compile_excluding (catalogue : Catalogue) (names : List String) (settings : CompileSettings) (context : Context)
    (d : Draft) : d.compile (catalogue.remove names).inline settings context =
      d.compile catalogue.inline (settings.excluding names) context := by
  rw [compile,compile]
  simp only [CompileSettings.excluding,Exclusion.combine_ofList]
  split
  · rfl
  · exact Construct.applyEach_excluding names settings context catalogue.inline d

namespace Compiler

/-- A compiler for a catalogue without some constructs. -/
def removing (catalogue : Catalogue) (names : List String) (settings : CompileSettings) (context : Context)
    (resources : Resources) : Compiler :=
  ⟨(catalogue.remove names).inline,settings,context,resources⟩

/-- A compiler for the whole catalogue whose settings exclude the constructs. -/
def excluding (catalogue : Catalogue) (names : List String) (settings : CompileSettings) (context : Context)
    (resources : Resources) : Compiler :=
  ⟨catalogue.inline,settings.excluding names,context,resources⟩

variable {catalogue : Catalogue} {context : Context} {resources : Resources}

theorem excluding_step : (removing catalogue names settings context resources).InStep (fun one two => one = two)
    (excluding catalogue names settings context resources) where
  toUnitStep := .of_drafts same_lockstep (settings.excluding_step names) rfl rfl
    (Draft.compile_excluding catalogue names settings)
  fanOut each := by
    rw [List.forall₂_eq_eq_eq] at each
    subst each
    rfl

theorem excluding_aligned (raw : Text) (c : Construct) : Paragraph.Aligned (fun one two => one = two)
    (removing catalogue names settings context resources) (excluding catalogue names settings context resources) raw c :=
  .of_settings same_lockstep (settings.excluding_step names) (fun _ _ => rfl) raw c

theorem removed_excluded (catalogue : Catalogue) (names : List String) (settings : CompileSettings) (context : Context)
    (resources : Resources) :
    let one := removing catalogue names settings context resources
    let two := excluding catalogue names settings context resources
    (∀ p : Paragraph, p.compile one = p.compile two) ∧ (∀ h, one.heading h = two.heading h) ∧
      ∀ d, one.document d = two.document d := by
  have aligned : ∀ p : Paragraph, p.Replaces (Paragraph.Aligned (fun one two => one = two)
      (removing catalogue names settings context resources) (excluding catalogue names settings context resources)) :=
    fun _ raw _ _ c _ => excluding_aligned raw c
  refine ⟨fun p => ?_,fun h => ?_,fun d => ?_⟩
  · exact Paragraph.compile_step same_lockstep excluding_step.toUnitStep p (aligned p)
  · exact heading_step same_lockstep excluding_step.toUnitStep h
  · exact document_step same_lockstep excluding_step ⟨fun p _ => aligned p,fun _ _ p _ => aligned p⟩

end Compiler
end LightMarkup
