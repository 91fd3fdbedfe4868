import Mathlib
import LightMarkup.Proofs.Complaints

/-!
A strict run is the lenient one up to the first thing that the lenient one complains of: there it fails, and without a
complaint the two are the same. Neither catalogue nor text matters for it, only that units are run in order.
-/

namespace LightMarkup

def LoadSettings.lenient (settings : LoadSettings) : LoadSettings :=
  { settings with strictQuotes := false, strictLoadingRules := false }

def LoadSettings.strict (settings : LoadSettings) : LoadSettings :=
  { settings with strictQuotes := true, strictLoadingRules := true }

def CompileSettings.lenient (settings : CompileSettings) : CompileSettings :=
  { settings with
    strictImageSources := false, strictLists := false, strictQuotes := false, strictCitations := false,
    strictReferences := false, strictGreekLetters := false }

namespace Logged

variable {α β : Type} {x y : Logged α}

def Quiet (log : List Entry) : Prop :=
  ∀ entry ∈ log, entry.isComplaint = false

-- The second run goes as the first one does until that complains, and fails there.
def Stops (x y : Logged α) : Prop :=
  (Quiet x.log ∧ y = x ∧ ∀ failure, x.outcome = .error failure → ∀ entry, ¬ failure.Reports entry) ∨
    ∃ before entry after failure, x.log = before ++ entry :: after ∧ Quiet before ∧ failure.Reports entry ∧
      y = ⟨before,.error failure⟩

theorem stops_fail {failure : Failure} (other : ∀ entry, ¬ failure.Reports entry) :
    Stops (.fail failure : Logged α) (.fail failure) := by
  refine Or.inl ⟨List.forall_mem_nil _,rfl,?_⟩
  intro stopped same
  cases same
  exact other

theorem stops_bind {f g : α → Logged β} (here : Stops x y) (later : ∀ a, x.outcome = .ok a → Stops (f a) (g a)) :
    Stops (x >>= f) (y >>= g) := by
  rcases here with ⟨quiet,rfl,other⟩ | ⟨before,entry,after,failure,split,quiet,reports,rfl⟩
  · cases ran : y.outcome with
    | error failure =>
      rw [bind_error ran,bind_error ran]
      refine Or.inl ⟨quiet,rfl,?_⟩
      intro stopped same
      cases same
      exact other failure ran
    | ok a =>
      rw [bind_ok ran,bind_ok ran]
      rcases later a ran with ⟨calm,same,none⟩ | ⟨before,entry,after,failure,split,calm,reports,stopped⟩
      · exact Or.inl ⟨List.forall_mem_append.mpr ⟨quiet,calm⟩,by rw [same],none⟩
      · refine Or.inr ⟨y.log ++ before,entry,after,failure,?_,List.forall_mem_append.mpr ⟨quiet,calm⟩,reports,?_⟩
        · rw [split,List.append_assoc]
        · rw [stopped]
  · have stopped : (⟨before,.error failure⟩ : Logged α) >>= g = ⟨before,.error failure⟩ := bind_error rfl
    rw [stopped]
    cases ran : x.outcome with
    | error first =>
      rw [bind_error ran]
      exact Or.inr ⟨before,entry,after,failure,split,quiet,reports,rfl⟩
    | ok a =>
      rw [bind_ok ran]
      refine Or.inr ⟨before,entry,after ++ (f a).log,failure,?_,quiet,reports,rfl⟩
      simp [split]

theorem stops_lockstep : Lockstep Stops where
  except := by
    intro α x ordinary
    refine Or.inl ⟨List.forall_mem_nil _,rfl,fun failure stopped entry reports => ?_⟩
    have known := ordinary failure stopped
    cases reports <;> cases known
  write quiet := Or.inl ⟨List.forall_mem_singleton.mpr quiet,rfl,fun _ stopped => nomatch stopped⟩
  bind := stops_bind

-- Where a strict run and a lenient one part.
theorem stops_complains : Complains Stops false true := by
  intro failure entry reports
  exact Or.inr ⟨[],entry,[],failure,rfl,List.forall_mem_nil _,reports,rfl⟩

end Logged

open Logged

theorem Catalogue.stops_step (catalogue : Catalogue) (settings : LoadSettings) :
    catalogue.InStep Stops settings.lenient settings.strict where
  depth := rfl
  block _ _ _ _ _ _ _ _ _ inside := Loading.load_step stops_lockstep (Complains.quotes stops_complains)
    (fun _ _ => stops_fail nofun) (fun _ _ => stops_fail nofun) inside
  fallback _ _ _ _ _ _ _ inside := Loading.load_step stops_lockstep (Complains.quotes stops_complains)
    (fun _ _ => stops_fail nofun) (fun _ _ => stops_fail nofun) inside
  skip construct _ := stops_complains (.loadingRule construct.name)

theorem CompileSettings.stops_step (settings : CompileSettings) : settings.lenient.InStep Stops settings.strict where
  bullets := rfl
  references := rfl
  bibliography := rfl
  embedLocal := rfl
  embedRemote := rfl
  location := rfl
  lists := stops_complains
  greekLetters := stops_complains
  reference := stops_complains
  citation := stops_complains
  sources := stops_complains

namespace Compiler

def lenient (compiler : Compiler) : Compiler :=
  { compiler with settings := compiler.settings.lenient }

def strict (compiler : Compiler) : Compiler :=
  { compiler with settings := compiler.settings.strict }

variable {compiler : Compiler}

theorem stops_step (sequential : compiler.settings.parallel = false) (first : compiler.settings.collectErrors = false) :
    compiler.lenient.InStep Stops compiler.strict := by
  refine ⟨.of_settings stops_lockstep (CompileSettings.stops_step _) rfl rfl rfl rfl
    (fun _ _ _ _ _ _ => stops_fail nofun),?_⟩
  intro α units others each
  have lenient : compiler.lenient.fanOut units = FanOut.inOrder units := by
    simp [fanOut,FanOut.run,Compiler.lenient,CompileSettings.lenient,sequential,first]
  have strict : compiler.strict.fanOut others = FanOut.inOrder others := by
    simp [fanOut,FanOut.run,Compiler.strict,CompileSettings.strict,sequential,first]
  rw [lenient,strict]
  exact stops_lockstep.inOrder each

theorem stops_aligned (raw : Text) (c : Construct) : Paragraph.Aligned Stops compiler.lenient compiler.strict raw c :=
  .of_settings stops_lockstep (CompileSettings.stops_step _) (fun _ _ => stops_fail nofun) raw c

theorem document_stops (sequential : compiler.settings.parallel = false) (first : compiler.settings.collectErrors = false)
    (catalogue : Catalogue) (settings : LoadSettings) (name t : Text) :
    Stops (Document.ofText catalogue settings.lenient name t >>= compiler.lenient.document)
      (Document.ofText catalogue settings.strict name t >>= compiler.strict.document) := by
  refine stops_bind (Document.ofText_step stops_lockstep (Catalogue.stops_step _ _) name t) fun d _ => ?_
  have aligned : d.Replaces (Paragraph.Aligned Stops compiler.lenient compiler.strict) :=
    ⟨fun _ _ raw _ _ c _ => stops_aligned raw c,fun _ _ _ _ raw _ _ c _ => stops_aligned raw c⟩
  exact document_step stops_lockstep (stops_step sequential first) aligned

end Compiler

-- There is one first complaint.
theorem Logged.Quiet.first {before after front back : List Entry} {entry other : Entry} (quiet : Quiet before)
    (complaint : entry.isComplaint = true) (calm : Quiet front) (complains : other.isComplaint = true)
    (same : before ++ entry :: after = front ++ other :: back) : before = front ∧ entry = other := by
  have taken : ∀ {log rest : List Entry} {entry : Entry}, Quiet log → entry.isComplaint = true →
      (log ++ entry :: rest).takeWhile (fun entry => !entry.isComplaint) = log := by
    intro log rest entry quiet complaint
    rw [List.takeWhile_append_of_pos fun entry member => by rw [quiet entry member]; rfl]
    simp [complaint]
  have fronts : before = front := by rw [← taken quiet complaint,same,taken calm complains]
  subst fronts
  exact ⟨rfl,(List.cons.inj (List.append_cancel_left same)).1⟩

-- The strict run is the lenient one, or what there is of it before its first complaint and then a failure that reports it.
theorem Compiler.strict_stops {compiler : Compiler} (sequential : compiler.settings.parallel = false)
    (first : compiler.settings.collectErrors = false) (catalogue : Catalogue) (settings : LoadSettings) (name t : Text) :
    let lenient := Document.ofText catalogue settings.lenient name t >>= compiler.lenient.document
    let strict := Document.ofText catalogue settings.strict name t >>= compiler.strict.document
    (Quiet lenient.log → strict = lenient) ∧
      (∀ before entry after, lenient.log = before ++ entry :: after → Quiet before → entry.isComplaint = true →
        ∃ failure, failure.Reports entry ∧ strict = ⟨before,.error failure⟩) ∧
      ∀ failure entry, strict.outcome = .error failure → failure.Reports entry → ¬ Quiet lenient.log := by
  intro lenient strict
  have stops : Stops lenient strict := document_stops sequential first catalogue settings name t
  rcases stops with ⟨quiet,same,other⟩ | ⟨before,entry,after,failure,split,calm,reports,stopped⟩
  · refine ⟨fun _ => same,?_,?_⟩
    · intro before entry after split _ complaint
      have member : entry ∈ lenient.log := by simp [split]
      simp [quiet entry member] at complaint
    · intro failure entry failed reports
      exact absurd reports (other failure (same ▸ failed) entry)
  · have member : entry ∈ lenient.log := by simp [split]
    have loud : ¬ Quiet lenient.log := fun quiet => nomatch (quiet entry member).symm.trans reports.isComplaint
    refine ⟨fun quiet => absurd quiet loud,?_,fun _ _ _ _ => loud⟩
    intro front found back parts quiet complaint
    obtain ⟨rfl,rfl⟩ := calm.first reports.isComplaint quiet complaint (split.symm.trans parts)
    exact ⟨failure,reports,stopped⟩

-- A quote in the first line, and behind it a line without the mark.
def beforeSkipped : List Entry :=
  [⟨.debug,.loading,"loading document `d`"⟩,⟨.debug,.loading,"loading `extended-block-quote` at 0"⟩]

def skippedLine : Entry := ⟨.warning,.paragraphs,"block quote line without `>`: `b`: skipped"⟩

theorem load_halfQuoted (inline : List Construct) :
    (Document.ofText ⟨inline,Block.standard,some Block.fallback,HeadingConstruct.standard⟩ {} "d" "> a\nb").log =
      beforeSkipped ++ [skippedLine] := by
  unfold beforeSkipped skippedLine Block.standard Block.code Block.math Block.styledWithId Block.identified Block.table
    Block.quote Block.focus Block.list Block.abridgedTodo Block.multilineTodo Block.todo Block.pageBreak
    Block.lineBreakByDashes Block.lineBreakByStars Block.lineBreakByPluses Block.imageRow Block.abridgedImage Block.image
    Block.comment Block.todoOpening Block.nuidTemplate
  repeat rw [Text.ofString_ofList]
  cbv

def bareCompiler : Compiler :=
  ⟨Inline.standard,{},⟨none,none⟩,⟨⟨[],[]⟩,[]⟩⟩

theorem Compiler.strict_stops_quote :
    bareCompiler.settings.parallel = false ∧ bareCompiler.settings.collectErrors = false ∧
      (∃ after, (Document.ofText Catalogue.standard (LoadSettings.lenient {}) "d" "> a\nb" >>=
        bareCompiler.lenient.document).log = beforeSkipped ++ skippedLine :: after) ∧
      ∃ failure, failure.Reports skippedLine ∧ Document.ofText Catalogue.standard (LoadSettings.strict {}) "d" "> a\nb" >>=
        bareCompiler.strict.document = ⟨beforeSkipped,.error failure⟩ := by
  obtain ⟨_,stops,_⟩ := @strict_stops bareCompiler rfl rfl Catalogue.standard {} "d" "> a\nb"
  have loaded : (Document.ofText Catalogue.standard (LoadSettings.lenient {}) "d" "> a\nb").log =
    beforeSkipped ++ [skippedLine] := load_halfQuoted Inline.standard
  obtain ⟨after,split⟩ : ∃ after, (Document.ofText Catalogue.standard (LoadSettings.lenient {}) "d" "> a\nb" >>=
      bareCompiler.lenient.document).log = beforeSkipped ++ skippedLine :: after := by
    cases ran : (Document.ofText Catalogue.standard (LoadSettings.lenient {}) "d" "> a\nb").outcome with
    | error failure => exact ⟨[],by rw [Logged.bind_error ran,loaded]⟩
    | ok d => exact ⟨_,by rw [Logged.bind_ok ran,loaded,List.append_assoc]; rfl⟩
  have quiet : Quiet beforeSkipped := by
    exact List.forall_mem_cons.mpr ⟨rfl,List.forall_mem_singleton.mpr rfl⟩
  exact ⟨rfl,rfl,⟨after,split⟩,stops _ _ _ split quiet rfl⟩

end LightMarkup
