import LightMarkup.Dossier.Loading
import LightMarkup.Proofs.Complaints
import LightMarkup.Proofs.Dossier.Keeping

/-!
Units side by side or one after the other. Only the logs can tell how the units of a run were scheduled: what a fan-out comes
to is a matter of what its units come to, and so it is of documents and dossiers, whose fan-outs stand inside each other.
-/

namespace LightMarkup

namespace Logged

-- Two runs that end alike, whatever they log.
def SameOutcome {α : Type} (x y : Logged α) : Prop :=
  x.outcome = y.outcome

theorem sameOutcome_lockstep : Lockstep SameOutcome where
  except _ := rfl
  write _ := rfl
  bind := by
    intro α β x y f g first later
    cases ran : x.outcome with
    | error failure =>
      rw [SameOutcome,bind_error ran,bind_error (first.symm.trans ran)]
    | ok a =>
      rw [SameOutcome,bind_ok ran,bind_ok (first.symm.trans ran)]
      exact later a ran

theorem sameOutcome_complains {one two : Bool} (same : one = two) : Complains SameOutcome one two := by
  subst same
  exact fun _ => rfl

theorem SameOutcome.value? {α : Type} {x y : Logged α} (same : SameOutcome x y) : x.value? = y.value? := by
  unfold Logged.value?
  rw [same]

end Logged

open Logged

-- The settings of a run that schedules its units in one way or the other.
def LoadSettings.inMode (settings : LoadSettings) (parallel : Bool) : LoadSettings :=
  { settings with parallel := parallel }

def CompileSettings.inMode (settings : CompileSettings) (parallel : Bool) : CompileSettings :=
  { settings with parallel := parallel }

def Compiler.inMode (compiler : Compiler) (parallel : Bool) : Compiler :=
  { compiler with settings := compiler.settings.inMode parallel }

-- Its last change decides how a configuration schedules units.
def DossierConfiguration.inMode (configuration : DossierConfiguration) (parallel : Bool) : DossierConfiguration :=
  { configuration with changes := configuration.changes ++ [.switch .parallel parallel] }

def Dossier.inMode (dossier : Dossier) (parallel : Bool) : Dossier :=
  { dossier with configuration := dossier.configuration.map (·.inMode parallel) }

namespace SettingChange

variable (changes : List SettingChange)

end SettingChange

-- Loading a text is no fan-out.
theorem Catalogue.modes_step (catalogue : Catalogue) {one two : LoadSettings} (same : one.inMode false = two.inMode false) :
    catalogue.InStep SameOutcome one two where
  depth := (congrArg LoadSettings.maxDepth same :)
  block _ _ _ _ _ _ _ _ _ inside := Loading.load_step sameOutcome_lockstep
    (Complains.quotes (sameOutcome_complains (congrArg LoadSettings.strictQuotes same :))) (fun _ _ => rfl) (fun _ _ => rfl)
    inside
  fallback _ _ _ _ _ _ _ inside := Loading.load_step sameOutcome_lockstep
    (Complains.quotes (sameOutcome_complains (congrArg LoadSettings.strictQuotes same :))) (fun _ _ => rfl) (fun _ _ => rfl)
    inside
  skip construct _ :=
    sameOutcome_complains (congrArg LoadSettings.strictLoadingRules same :) (.loadingRule construct.name)

theorem CompileSettings.modes_step {one two : CompileSettings} (same : one.inMode false = two.inMode false) :
    one.InStep SameOutcome two where
  bullets := (congrArg CompileSettings.bullets same :)
  references := (congrArg CompileSettings.references same :)
  bibliography := (congrArg CompileSettings.bibliography same :)
  embedLocal := (congrArg CompileSettings.embedLocalImages same :)
  embedRemote := (congrArg CompileSettings.embedRemoteImages same :)
  location := (congrArg CompileSettings.inputLocation same :)
  lists := sameOutcome_complains (congrArg CompileSettings.strictLists same :)
  greekLetters := sameOutcome_complains (congrArg CompileSettings.strictGreekLetters same :)
  reference := sameOutcome_complains (congrArg CompileSettings.strictReferences same :)
  citation := sameOutcome_complains (congrArg CompileSettings.strictCitations same :)
  sources := sameOutcome_complains (congrArg CompileSettings.strictImageSources same :)

namespace Compiler

variable {one two : Compiler}

-- Compilers that differ in no more than how they schedule units.
structure AlikeButMode (one two : Compiler) : Prop where
  constructs : one.constructs = two.constructs
  settings : one.settings.inMode false = two.settings.inMode false
  context : one.context = two.context
  resources : one.resources = two.resources

theorem fanOut_outcome {α : Type} (compiler : Compiler) (units : List (Logged α)) :
    (compiler.fanOut units).outcome = FanOut.verdict compiler.settings.collectErrors units :=
  FanOut.run_verdict _ _ units

namespace AlikeButMode

theorem steps (alike : AlikeButMode one two) : one.InStep SameOutcome two := by
  refine ⟨.of_settings sameOutcome_lockstep (CompileSettings.modes_step alike.settings)
    (congrArg CompileSettings.excluded alike.settings :) alike.constructs alike.context alike.resources
    (fun _ _ _ _ _ _ => rfl),?_⟩
  intro α units others each
  have same : units.map outcome = others.map outcome := by
    rwa [← List.forall₂_eq_eq_eq,List.forall₂_map_left_iff,List.forall₂_map_right_iff]
  have collect : one.settings.collectErrors = two.settings.collectErrors :=
    (congrArg CompileSettings.collectErrors alike.settings :)
  rw [SameOutcome,fanOut_outcome,fanOut_outcome,FanOut.verdict_congr _ same]
  exact congrArg (FanOut.verdict · others) collect

theorem document (alike : AlikeButMode one two) (d : Document) : SameOutcome (one.document d) (two.document d) := by
  have aligned : ∀ raw c, Paragraph.Aligned SameOutcome one two raw c :=
    .of_settings sameOutcome_lockstep (CompileSettings.modes_step alike.settings) fun _ _ => rfl
  exact document_step sameOutcome_lockstep alike.steps
    ⟨fun _ _ raw _ _ c _ => aligned raw c,fun _ _ _ _ raw _ _ c _ => aligned raw c⟩

theorem contents (alike : AlikeButMode one two) (toc : TableOfContents) :
    SameOutcome (toc.compile one) (toc.compile two) := by
  have entries : ∀ entries, SameOutcome (toc.entriesParts one entries) (toc.entriesParts two entries) := by
    intro entries
    induction entries with
    | nil => rfl
    | cons entry rest ih =>
      refine sameOutcome_lockstep.bind ?_ fun parts _ => sameOutcome_lockstep.bind ih fun others _ => rfl
      exact sameOutcome_lockstep.bind
        (inline_step (alike.steps.toUnitStep.inDocument entry.documentName) _) fun title _ => rfl
  exact sameOutcome_lockstep.bind (inline_step alike.steps.toUnitStep _) fun title _ =>
    sameOutcome_lockstep.bind (entries _) fun parts _ => rfl

theorem bibliography (alike : AlikeButMode one two) (b : Bibliography) : SameOutcome (b.compile one) (b.compile two) :=
  sameOutcome_lockstep.bind (inline_step alike.steps.toUnitStep _) fun _ _ => rfl

end AlikeButMode
end Compiler

namespace Dossier

-- Dossiers with the same results, and with the same wish for a table of contents.
structure Alike (one two : Dossier) : Prop where
  name : one.name = two.name
  documents : one.documents = two.documents
  contents : one.contents = two.contents
  bibliography : one.bibliography = two.bibliography
  wanted : one.configuration.bind DossierConfiguration.contents = two.configuration.bind DossierConfiguration.contents

theorem Alike.page {one two : Dossier} (alike : Alike one two) : one.page = two.page := by
  rw [Dossier.page,Dossier.page,alike.name,alike.documents,alike.contents,alike.bibliography]

-- Compilations that end alike, and leave like dossiers if they succeed.
structure Agree (x y : Dossier × Logged Unit) : Prop where
  outcome : SameOutcome x.2 y.2
  left : x.2.outcome = .ok () → Alike x.1 y.1

theorem Agree.andThen {x y : Dossier × Logged Unit} {f g : Dossier → Dossier × Logged Unit} (here : Agree x y)
    (later : ∀ one two, Alike one two → Agree (f one) (g two)) : Agree (Dossier.andThen f x) (Dossier.andThen g y) := by
  cases ran : x.2.outcome with
  | error failure =>
    rw [andThen_stopped ran,andThen_stopped (here.outcome.symm.trans ran)]
    exact ⟨rfl,fun other => nomatch other⟩
  | ok u =>
    rw [andThen_followed ran,andThen_followed (here.outcome.symm.trans ran)]
    have next := later x.1 y.1 (here.left ran)
    exact ⟨next.outcome,next.left⟩

section

variable {one two : Compiler} (alike : one.AlikeButMode two)
include alike

end

end Dossier
end LightMarkup
