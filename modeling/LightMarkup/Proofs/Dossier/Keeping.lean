import Mathlib.Data.List.TakeWhile
import LightMarkup.Dossier.Basic
import LightMarkup.Proofs.FanOut

/-!
What a dossier keeps of its compilation. Every step leaves what it has completed, and a step that fails leaves what was there
before; nothing takes back what the steps before it have left.
-/

namespace LightMarkup

namespace Dossier

variable (compiler : Compiler) (dossier : Dossier)

-- The document with its text, if it is one to compile and its compilation succeeds.
def stored (document : Document) : Document :=
  if selects compiler.settings document then
    { document with compiled := (compiler.document document).value?.or document.compiled }
  else document

-- Whether a run that stops at the first failure goes on behind the document.
def passes (document : Document) : Bool :=
  !selects compiler.settings document || (compiler.document document).succeeds

-- The documents as their compilation leaves them: all in one go, or one by one up to the first that fails.
def kept (documents : List Document) : List Document :=
  if compiler.settings.collectErrors || compiler.settings.parallel then documents.map (stored compiler)
  else (documents.takeWhile (passes compiler)).map (stored compiler) ++ documents.dropWhile (passes compiler)

section

variable {selected : Document → Bool} {results : List (Option Draft)} {document : Document} {documents : List Document}

theorem keepCompiled_selected (result : Option Draft) (chosen : selected document = true) :
    keepCompiled selected (result :: results) (document :: documents) =
      { document with compiled := result.or document.compiled } :: keepCompiled selected results documents := by
  cases result <;> simp [keepCompiled,chosen]

theorem keepCompiled_other (other : selected document = false) :
    keepCompiled selected results (document :: documents) = document :: keepCompiled selected results documents := by
  cases results with
  | nil => cases documents <;> rfl
  | cons result results => simp [keepCompiled,other]

-- Without results everything stays.
theorem keepCompiled_none (none : ∀ result ∈ results, result = .none) : keepCompiled selected results documents = documents := by
  induction documents generalizing results with
  | nil => rw [keepCompiled]
  | cons document documents ih =>
    cases chosen : selected document with
    | false => rw [keepCompiled_other chosen,ih none]
    | true =>
      cases results with
      | nil => rfl
      | cons result results =>
        obtain ⟨rfl,others⟩ := List.forall_mem_cons.mp none
        rw [keepCompiled_selected .none chosen,ih others]
        rfl

end

theorem stored_other {document : Document} (other : selects compiler.settings document = false) :
    stored compiler document = document := by
  simp [stored,other]

-- The units of the documents to compile.
def units (documents : List Document) : List (Logged Draft) :=
  (documents.filter (selects compiler.settings)).map compiler.document

section

variable {compiler} {document : Document} (documents : List Document)

theorem units_selected (chosen : selects compiler.settings document = true) :
    units compiler (document :: documents) = compiler.document document :: units compiler documents := by
  rw [units,List.filter_cons,if_pos chosen,List.map_cons,units]

theorem units_other (other : selects compiler.settings document = false) :
    units compiler (document :: documents) = units compiler documents := by
  rw [units,List.filter_cons,if_neg (by simp [other]),units]

end

theorem keepCompiled_all (documents : List Document) :
    keepCompiled (selects compiler.settings) ((units compiler documents).map Logged.value?) documents =
      documents.map (stored compiler) := by
  induction documents with
  | nil => rw [keepCompiled,List.map_nil]
  | cons document documents ih =>
    cases chosen : selects compiler.settings document with
    | false => rw [units_other _ chosen,keepCompiled_other chosen,List.map_cons,stored_other compiler chosen,ih]
    | true => rw [units_selected _ chosen,List.map_cons,keepCompiled_selected _ chosen,List.map_cons,ih,stored,if_pos chosen]

theorem keepCompiled_inOrder (documents : List Document) :
    keepCompiled (selects compiler.settings) (FanOut.reachedInOrder (units compiler documents)) documents =
      (documents.takeWhile (passes compiler)).map (stored compiler) ++ documents.dropWhile (passes compiler) := by
  induction documents with
  | nil => rw [keepCompiled]; rfl
  | cons document documents ih =>
    cases chosen : selects compiler.settings document with
    | false =>
      have passed : passes compiler document = true := by simp [passes,chosen]
      rw [units_other _ chosen,keepCompiled_other chosen,List.takeWhile_cons_of_pos passed,
        List.dropWhile_cons_of_pos passed,List.map_cons,stored_other compiler chosen,List.cons_append,ih]
    | true =>
      rw [units_selected _ chosen,FanOut.reachedInOrder]
      cases ran : (compiler.document document).outcome with
      | ok draft =>
        have passed : passes compiler document = true := by simp [passes,Logged.succeeds,ran]
        rw [Logged.value?_ok ran,List.takeWhile_cons_of_pos passed,List.dropWhile_cons_of_pos passed,List.map_cons,
          List.cons_append,← ih,stored,if_pos chosen,Logged.value?_ok ran]
        exact keepCompiled_selected _ chosen
      | error failure =>
        have stuck : ¬ passes compiler document = true := by simp [passes,Logged.succeeds,ran,chosen]
        rw [Logged.value?_error ran,List.takeWhile_cons_of_neg stuck,List.dropWhile_cons_of_neg stuck]
        exact keepCompiled_none (by simp)

theorem compileDocuments_left : (compileDocuments compiler dossier).1 =
    { dossier with documents := kept compiler dossier.documents } := by
  have reached : keepCompiled (selects compiler.settings)
      (FanOut.reached compiler.settings.parallel compiler.settings.collectErrors (units compiler dossier.documents))
      dossier.documents = kept compiler dossier.documents := by
    rw [FanOut.reached_eq,kept]
    split
    · exact keepCompiled_all compiler _
    · exact keepCompiled_inOrder compiler _
  exact congrArg (fun documents => { dossier with documents := documents }) reached

theorem announce_outcome (settings : CompileSettings) (selected : List Document) :
    (dossier.announce settings selected).outcome = .ok () := by
  unfold announce
  split
  · rfl
  · rfl

theorem compileDocuments_outcome : (compileDocuments compiler dossier).2.outcome =
    (FanOut.verdict compiler.settings.collectErrors (units compiler dossier.documents)).map fun _ => () := by
  unfold compileDocuments
  dsimp only
  rw [Logged.bind_ok (announce_outcome dossier _ _),Logged.outcome_bind_pure (fun _ => ()),Compiler.fanOut,FanOut.run_verdict]
  rfl

theorem compileDocuments_passed (ran : (compileDocuments compiler dossier).2.outcome = .ok ()) :
    FanOut.failures (units compiler dossier.documents) = [] := by
  rw [compileDocuments_outcome,FanOut.verdict] at ran
  cases failed : FanOut.failures (units compiler dossier.documents) with
  | nil => rfl
  | cons first later =>
    rw [failed] at ran
    cases ran

-- A table of contents that is compiled as the configuration wants it.
def IsContents (draft : Draft) : Prop :=
  ∃ settings, dossier.configuration.bind DossierConfiguration.contents = some settings ∧ settings.included = true ∧
    ((TableOfContents.ofDocuments dossier.documents settings).compile compiler).outcome = .ok draft

theorem compileContents_error {failure : Failure} (stopped : (compileContents compiler dossier).2.outcome = .error failure) :
    (compileContents compiler dossier).1 = dossier := by
  unfold compileContents at stopped ⊢
  split
  · rfl
  · rename_i settings wanted
    rw [wanted] at stopped
    dsimp only at stopped ⊢
    split
    · rename_i included
      rw [if_pos included] at stopped
      cases ran : ((TableOfContents.ofDocuments dossier.documents settings).compile compiler).outcome with
      | ok draft => simp [Logged.discard,ran,Except.map] at stopped
      | error other => rw [Logged.value?_error ran,Option.none_or]
    · rfl

theorem compileContents_ok (ran : (compileContents compiler dossier).2.outcome = .ok ()) :
    (compileContents compiler dossier).1 = dossier ∨
      ∃ draft, IsContents compiler dossier draft ∧ (compileContents compiler dossier).1 = { dossier with contents := some draft } := by
  unfold compileContents at ran ⊢
  split
  · exact Or.inl rfl
  · rename_i settings wanted
    rw [wanted] at ran
    dsimp only at ran ⊢
    split
    · rename_i included
      rw [if_pos included] at ran
      cases compiled : ((TableOfContents.ofDocuments dossier.documents settings).compile compiler).outcome with
      | ok draft => exact Or.inr ⟨draft,⟨settings,wanted,included,compiled⟩,by rw [Logged.value?_ok compiled,Option.some_or]⟩
      | error failure => simp [Logged.discard,compiled,Except.map] at ran
    · exact Or.inl rfl

theorem compileBibliography_error {failure : Failure}
    (stopped : (compileBibliography compiler dossier).2.outcome = .error failure) :
    (compileBibliography compiler dossier).1 = dossier := by
  unfold compileBibliography at stopped ⊢
  split
  · rfl
  · rename_i bibliography wanted
    rw [wanted] at stopped
    dsimp only at stopped ⊢
    cases ran : (bibliography.compile compiler).outcome with
    | ok draft => simp [Logged.discard,ran,Except.map] at stopped
    | error other => rw [Logged.value?_error ran,Option.none_or]

section

variable {step : Dossier → Dossier × Logged Unit} {run : Dossier × Logged Unit} {failure : Failure}

theorem andThen_stopped (stopped : run.2.outcome = .error failure) :
    andThen step run = (run.1,⟨run.2.log,.error failure⟩) := by
  simp only [andThen,stopped]

theorem andThen_followed (ran : run.2.outcome = .ok ()) :
    andThen step run = ((step run.1).1,⟨run.2.log ++ (step run.1).2.log,(step run.1).2.outcome⟩) := by
  simp only [andThen,ran]

-- Where a step after another one fails.
theorem andThen_error (stopped : (andThen step run).2.outcome = .error failure) :
    (run.2.outcome = .error failure ∧ (andThen step run).1 = run.1) ∨
      (run.2.outcome = .ok () ∧ (step run.1).2.outcome = .error failure ∧ (andThen step run).1 = (step run.1).1) := by
  cases ran : run.2.outcome with
  | error other =>
    rw [andThen_stopped ran] at stopped ⊢
    exact Or.inl ⟨stopped,rfl⟩
  | ok u =>
    rw [andThen_followed ran] at stopped ⊢
    exact Or.inr ⟨rfl,stopped,rfl⟩

theorem andThen_ok (success : (andThen step run).2.outcome = .ok ()) :
    run.2.outcome = .ok () ∧ (step run.1).2.outcome = .ok () ∧ (andThen step run).1 = (step run.1).1 := by
  cases ran : run.2.outcome with
  | error other =>
    rw [andThen_stopped ran] at success
    cases success
  | ok u =>
    rw [andThen_followed ran] at success ⊢
    exact ⟨rfl,success,rfl⟩

end

-- A document has the text that it had, or the whole text that its compilation makes.
def Settled (before after : Document) : Prop :=
  after = before ∨ ∃ draft, (compiler.document before).outcome = .ok draft ∧ after = { before with compiled := some draft }

theorem stored_settled (document : Document) : Settled compiler document (stored compiler document) := by
  unfold stored
  split
  · cases ran : (compiler.document document).outcome with
    | ok draft => exact Or.inr ⟨draft,ran,by rw [Logged.value?_ok ran,Option.some_or]⟩
    | error failure => exact Or.inl (by rw [Logged.value?_error ran,Option.none_or])
  · exact Or.inl rfl

theorem kept_settled (documents : List Document) : List.Forall₂ (Settled compiler) documents (kept compiler documents) := by
  have all : ∀ documents, List.Forall₂ (Settled compiler) documents (documents.map (stored compiler)) := by
    intro documents
    rw [List.forall₂_map_right_iff,List.forall₂_same]
    exact fun document _ => stored_settled compiler document
  unfold kept
  split
  · exact all documents
  · have rest : ∀ documents, List.Forall₂ (Settled compiler) documents documents := fun documents =>
      List.forall₂_same.mpr fun _ _ => Or.inl rfl
    have parts := List.rel_append (all (documents.takeWhile (passes compiler))) (rest (documents.dropWhile (passes compiler)))
    simpa only [List.takeWhile_append_dropWhile] using parts

-- A compilation that fails leaves every text that it has completed: those of the documents that were compiled, and the
-- table of contents if only the bibliography fails.
theorem failed_compile_keeps (constructs : List Construct) (settings : CompileSettings) (resources : Resources)
    (dossier : Dossier) :
    let compiler : Compiler := ⟨constructs,dossier.settingsFor settings,⟨none,some dossier.name⟩,resources⟩
    let run := dossier.compile constructs settings resources
    let documents := kept compiler dossier.documents
    ∀ failure, run.2.outcome = .error failure →
      List.Forall₂ (Settled compiler) dossier.documents documents ∧
      ∃ contents, run.1 = { dossier with documents := documents, contents := contents } ∧
        (contents = dossier.contents ∨ FanOut.failures (units compiler dossier.documents) = [] ∧
          ∃ draft, IsContents compiler { dossier with documents := documents } draft ∧ contents = some draft) := by
  intro compiler run documents failure stopped
  refine ⟨kept_settled compiler dossier.documents,?_⟩
  have left : (compileDocuments compiler dossier).1 = { dossier with documents := documents } :=
    compileDocuments_left compiler dossier
  rcases andThen_error stopped with ⟨early,same⟩ | ⟨before,late,same⟩
  · refine ⟨dossier.contents,?_,Or.inl rfl⟩
    rcases andThen_error early with ⟨_,unchanged⟩ | ⟨_,broken,unchanged⟩
    · exact (same.trans unchanged).trans left
    · rw [left] at broken
      have kept := compileContents_error compiler _ broken
      exact (same.trans unchanged).trans (left ▸ kept)
  · obtain ⟨compiled,ran,unchanged⟩ := andThen_ok before
    rw [left] at ran unchanged
    have kept := same.trans (compileBibliography_error compiler _ late)
    rcases compileContents_ok compiler _ ran with none | ⟨draft,isContents,some⟩
    · exact ⟨dossier.contents,kept.trans (unchanged.trans none),Or.inl rfl⟩
    · have passed := compileDocuments_passed compiler dossier compiled
      exact ⟨.some draft,kept.trans (unchanged.trans some),Or.inr ⟨passed,draft,isContents,rfl⟩⟩

-- Documents of which the second one holds a line that is no item of its list.
def brokenSecond : Dossier :=
  { name := "n", documents := [⟨"a",[],[],none⟩,⟨"b",[.leaf "- a\nx" "list" none .list],[],none⟩,⟨"c",[],[],none⟩] }

-- In parallel the third document is compiled too.
theorem failed_compile_keeps_around :
    let settings : CompileSettings := { strictLists := true, parallel := true }
    let run := brokenSecond.compile Inline.standard settings ⟨⟨[],[]⟩,[]⟩
    ∃ failure, run.2.outcome = .error failure ∧
      run.1.documents = kept ⟨Inline.standard,settings,⟨none,some "n"⟩,⟨⟨[],[]⟩,[]⟩⟩ brokenSecond.documents ∧
      run.1.documents.map (fun document => document.compiled.map Draft.content) =
        [some ("<section class=\"document\" id=\"a\"></section>" : Text),none,
          some ("<section class=\"document\" id=\"c\"></section>" : Text)] := by
  intro settings run
  have stopped : run.2.failure?.isSome = true := by decide +kernel
  obtain ⟨failure,found⟩ := Option.isSome_iff_exists.mp stopped
  have outcome := Logged.failure?_some.mp found
  obtain ⟨_,_,same,_⟩ := failed_compile_keeps Inline.standard settings ⟨⟨[],[]⟩,[]⟩ brokenSecond failure outcome
  exact ⟨failure,outcome,congrArg Dossier.documents same,by decide +kernel⟩

-- A compilation that fails is not undone.
theorem compile_not_undone :
    let run := brokenSecond.compile Inline.standard { strictLists := true } ⟨⟨[],[]⟩,[]⟩
    (∃ failure, run.2.outcome = .error failure) ∧
      brokenSecond.documents.map Document.compiled = [none,none,none] ∧
      run.1.documents.map (fun document => document.compiled.map Draft.content) =
        [some ("<section class=\"document\" id=\"a\"></section>" : Text),none,none] ∧
      run.1.documents.map Document.compiled ≠ brokenSecond.documents.map Document.compiled := by
  intro run
  have stopped : run.2.failure?.isSome = true := by decide +kernel
  obtain ⟨failure,found⟩ := Option.isSome_iff_exists.mp stopped
  have contents : run.1.documents.map (fun document => document.compiled.map Draft.content) =
      [some ("<section class=\"document\" id=\"a\"></section>" : Text),none,none] := by decide +kernel
  refine ⟨⟨failure,Logged.failure?_some.mp found⟩,rfl,contents,fun same => ?_⟩
  have texts := congrArg (List.map (Option.map Draft.content)) same
  rw [List.map_map,List.map_map] at texts
  cases contents.symm.trans texts

end Dossier
end LightMarkup
