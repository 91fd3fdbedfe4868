import Mathlib.Data.List.Flatten
import LightMarkup.Proofs.Complaints
import LightMarkup.Proofs.FanOut

/-!
What a document reports of the failures of its units when errors are collected. Paragraphs wait for their heading and chapters
for the preamble, so what stands behind a failure there is never compiled and its own failures are not reported. All others are,
each once and in the order of the document.
-/

namespace LightMarkup

namespace Failure

mutual

-- The failures that a failure stands for, at whatever depth they have been collected.
def flatten : Failure → List Failure
  | .several failures => flattenAll failures
  | failure => [failure]

def flattenAll : List Failure → List Failure
  | [] => []
  | failure :: rest => failure.flatten ++ flattenAll rest

end

theorem flatten_several (failures : List Failure) : flatten (.several failures) = failures.flatMap flatten := by
  rw [flatten]
  induction failures with
  | nil => rfl
  | cons failure rest ih => rw [flattenAll,ih,List.flatMap_cons]

-- What comes to light of two parts of which the second one waits for the first.
def inTurn (first later : List Failure) : List Failure :=
  if first = [] then later else first

variable {first later all : List Failure}

theorem inTurn_none : inTurn [] later = later := rfl

theorem inTurn_some (some : first ≠ []) : inTurn first later = first :=
  if_neg some

theorem inTurn_eq_nil : inTurn first later = [] ↔ first = [] ∧ later = [] := by
  by_cases none : first = []
  · simp [none,inTurn_none]
  · simp [none,inTurn_some none]

theorem inTurn_sublist (part : later.Sublist all) : (inTurn first later).Sublist (first ++ all) := by
  by_cases none : first = []
  · rwa [none,inTurn_none,List.nil_append]
  · rw [inTurn_some none]
    exact List.sublist_append_left ..

-- Everything comes to light if not both parts have something to show.
theorem inTurn_eq_append (part : later.Sublist all) :
    inTurn first later = first ++ all ↔ (first = [] ∨ all = []) ∧ later = all := by
  by_cases none : first = []
  · simp [none,inTurn_none]
  · rw [inTurn_some none,List.self_eq_append_right]
    refine ⟨fun nothing => ⟨Or.inr nothing,?_⟩,fun shown => shown.1.resolve_left none⟩
    rw [nothing] at part ⊢
    exact List.sublist_nil.mp part

end Failure

open Failure

-- Parts of lists make up the lists only if each of them does.
theorem flatMap_parts {α β : Type} {items : List α} {part whole : α → List β}
    (parts : ∀ item ∈ items, (part item).Sublist (whole item)) :
    items.flatMap part = items.flatMap whole ↔ ∀ item ∈ items, part item = whole item := by
  refine ⟨fun same => ?_,List.flatMap_congr⟩
  induction items with
  | nil => exact List.forall_mem_nil _
  | cons item items ih =>
    obtain ⟨here,others⟩ := List.forall_mem_cons.mp parts
    have rest := List.Sublist.flatMap_right items others
    rw [List.flatMap_cons,List.flatMap_cons] at same
    have lengths := congrArg List.length same
    rw [List.length_append,List.length_append] at lengths
    have short := here.length_le
    have shorter := rest.length_le
    obtain ⟨first,later⟩ := List.append_inj same (by omega)
    exact List.forall_mem_cons.mpr ⟨first,ih others later⟩

namespace Logged

variable {α β : Type} {x : Logged α} {f : α → Logged β} {failures others : List Failure}

-- A run that fails with all of the failures, or succeeds if there are none.
structure AnswersFor (x : Logged α) (failures : List Failure) : Prop where
  succeeds : failures = [] → ∃ a, x.outcome = .ok a
  fails : failures ≠ [] → ∃ failure, x.outcome = .error failure ∧ failure.flatten = failures

namespace AnswersFor

theorem pure (a : α) : (Pure.pure a : Logged α).AnswersFor [] :=
  ⟨fun _ => ⟨a,rfl⟩,fun some => absurd rfl some⟩

theorem bind (first : x.AnswersFor failures) (later : ∀ a, x.outcome = .ok a → (f a).AnswersFor others) :
    (x >>= f).AnswersFor (inTurn failures others) := by
  by_cases none : failures = []
  · obtain ⟨a,ran⟩ := first.succeeds none
    rw [bind_ok ran,none,inTurn_none]
    exact ⟨(later a ran).succeeds,(later a ran).fails⟩
  · obtain ⟨failure,stopped,flat⟩ := first.fails none
    rw [bind_error stopped,inTurn_some none]
    exact ⟨fun other => absurd other none,fun _ => ⟨failure,rfl,flat⟩⟩

theorem map (first : x.AnswersFor failures) (g : α → β) : (x >>= fun a => Pure.pure (g a)).AnswersFor failures := by
  have both := first.bind fun a _ => pure (g a)
  by_cases none : failures = []
  · rwa [none,inTurn_none,← none] at both
  · rwa [inTurn_some none] at both

end AnswersFor

-- Two runs of which the first one does not fail with a collection.
def FailsPlainly {α : Type} (x _y : Logged α) : Prop :=
  ∀ failure, x.outcome = .error failure → failure.flatten = [failure]

theorem failsPlainly_fail {failure : Failure} (plain : failure.flatten = [failure]) :
    FailsPlainly (.fail failure : Logged α) (.fail failure) := by
  intro other stopped
  cases stopped
  exact plain

theorem failsPlainly_lockstep : Lockstep FailsPlainly where
  except ordinary failure stopped := by
    have known := ordinary failure stopped
    cases failure with
    | several failures => cases known
    | _ => rfl
  write _ failure stopped := nomatch stopped
  bind first later failure stopped := by
    rcases outcome_bind_error.mp stopped with here | ⟨a,ran,there⟩
    · exact first failure here
    · exact later a ran failure there

theorem failsPlainly_complains (strict : Bool) : Complains FailsPlainly strict strict := by
  intro failure entry reports
  cases strict with
  | true => exact failsPlainly_fail (by cases reports <;> rfl)
  | false => exact fun _ stopped => nomatch stopped

theorem FailsPlainly.answersFor {y : Logged α} (plain : FailsPlainly x y) : x.AnswersFor x.failure?.toList := by
  cases ran : x.outcome with
  | ok a =>
    rw [failure?_ok ran]
    exact ⟨fun _ => ⟨a,ran⟩,fun some => absurd rfl some⟩
  | error failure =>
    rw [failure?_error ran]
    exact ⟨nofun,fun _ => ⟨failure,ran,plain failure ran⟩⟩

end Logged

open Logged

namespace FanOut

variable {α β : Type} {items : List β} {unit : β → Logged α} {reported : β → List Failure}

theorem failures_flatten (each : ∀ item ∈ items, (unit item).AnswersFor (reported item)) :
    (failures (items.map unit)).flatMap flatten = items.flatMap reported := by
  induction items with
  | nil => rfl
  | cons item items ih =>
    obtain ⟨here,others⟩ := List.forall_mem_cons.mp each
    rw [List.map_cons,List.flatMap_cons,← ih others]
    by_cases none : reported item = []
    · obtain ⟨a,ran⟩ := here.succeeds none
      rw [failures_ok ran,none,List.nil_append]
    · obtain ⟨failure,stopped,flat⟩ := here.fails none
      rw [failures_error stopped,List.flatMap_cons,flat]

-- Units that are all run answer for their failures together.
theorem run_answersFor (each : ∀ item ∈ items, (unit item).AnswersFor (reported item)) (parallel : Bool) :
    (run parallel true (items.map unit)).AnswersFor (items.flatMap reported) := by
  have flat := failures_flatten each
  constructor
  · intro none
    have passed : failures (items.map unit) = [] := by
      refine List.filterMap_eq_nil_iff.mpr fun run member => ?_
      obtain ⟨item,isItem,rfl⟩ := List.mem_map.mp member
      obtain ⟨a,ran⟩ := (each item isItem).succeeds (List.flatMap_eq_nil_iff.mp none item isItem)
      exact failure?_ok ran
    rw [run_verdict,verdict,passed]
    exact ⟨_,rfl⟩
  · intro some
    rw [run_verdict,verdict]
    cases stopped : failures (items.map unit) with
    | nil =>
      rw [stopped,List.flatMap_nil] at flat
      exact absurd flat.symm some
    | cons first later => exact ⟨_,rfl,by rw [report,if_pos rfl,flatten_several,← stopped,flat]⟩

theorem run_several {parallel : Bool} {units : List (Logged α)} {failure : Failure}
    (stopped : (run parallel true units).outcome = .error failure) : ∃ failures, failure = .several failures := by
  rw [run_verdict,verdict] at stopped
  cases failed : failures units with
  | nil => simp [failed] at stopped
  | cons first later =>
    simp only [failed,report,if_true,Except.error.injEq] at stopped
    exact ⟨first :: later,stopped.symm⟩

end FanOut

namespace Compiler

variable (compiler : Compiler)

-- What a heading and paragraphs fail for, each compiled on its own.
def headingFailures (h : Heading) : List Failure :=
  (compiler.heading h).failure?.toList

def paragraphFailures (ps : List Paragraph) : List Failure :=
  ps.flatMap fun p => (compiler.paragraph p).failure?.toList

def chapterFailures (c : Chapter) : List Failure :=
  compiler.headingFailures c.heading ++ compiler.paragraphFailures c.paragraphs

-- What the units of a document fail for, in its order.
def unitFailures (d : Document) : List Failure :=
  compiler.paragraphFailures d.preamble ++ d.chapters.flatMap compiler.chapterFailures

-- What of this comes to light.
def chapterReport (c : Chapter) : List Failure :=
  inTurn (compiler.headingFailures c.heading) (compiler.paragraphFailures c.paragraphs)

def unitReport (d : Document) : List Failure :=
  inTurn (compiler.paragraphFailures d.preamble) (d.chapters.flatMap compiler.chapterReport)

-- Nothing that fails stands behind a failure for which it waits.
structure Unhidden (d : Document) : Prop where
  chapters : compiler.paragraphFailures d.preamble = [] ∨ d.chapters.flatMap compiler.chapterFailures = []
  paragraphs : ∀ c ∈ d.chapters, compiler.headingFailures c.heading = [] ∨ compiler.paragraphFailures c.paragraphs = []

theorem chapterReport_sublist (c : Chapter) : (compiler.chapterReport c).Sublist (compiler.chapterFailures c) :=
  inTurn_sublist (List.Sublist.refl _)

theorem chapterReports_sublist (chapters : List Chapter) :
    (chapters.flatMap compiler.chapterReport).Sublist (chapters.flatMap compiler.chapterFailures) :=
  List.Sublist.flatMap_right chapters fun c _ => compiler.chapterReport_sublist c

theorem unitReport_sublist (d : Document) : (compiler.unitReport d).Sublist (compiler.unitFailures d) :=
  inTurn_sublist (compiler.chapterReports_sublist d.chapters)

theorem chapterReport_nil (c : Chapter) : compiler.chapterReport c = [] ↔ compiler.chapterFailures c = [] :=
  inTurn_eq_nil.trans List.append_eq_nil_iff.symm

theorem unitReport_nil (d : Document) : compiler.unitReport d = [] ↔ compiler.unitFailures d = [] := by
  unfold unitReport unitFailures
  rw [inTurn_eq_nil,List.append_eq_nil_iff,List.flatMap_eq_nil_iff,List.flatMap_eq_nil_iff]
  simp only [chapterReport_nil]

theorem unitReport_all (d : Document) : compiler.unitReport d = compiler.unitFailures d ↔ compiler.Unhidden d := by
  have chapters : d.chapters.flatMap compiler.chapterReport = d.chapters.flatMap compiler.chapterFailures ↔
      ∀ c ∈ d.chapters, compiler.headingFailures c.heading = [] ∨ compiler.paragraphFailures c.paragraphs = [] := by
    rw [flatMap_parts fun c _ => compiler.chapterReport_sublist c]
    refine forall₂_congr fun c _ => ?_
    rw [chapterReport,chapterFailures,inTurn_eq_append (List.Sublist.refl _)]
    exact and_iff_left rfl
  unfold unitReport unitFailures
  rw [inTurn_eq_append (compiler.chapterReports_sublist d.chapters),chapters]
  exact ⟨fun ⟨before,within⟩ => ⟨before,within⟩,fun ⟨before,within⟩ => ⟨before,within⟩⟩

-- Nothing that happens in a single text collects failures.
theorem plain_settings (settings : CompileSettings) : settings.InStep FailsPlainly settings :=
  .same failsPlainly_complains settings

theorem plain_step : compiler.UnitStep FailsPlainly compiler :=
  .of_settings failsPlainly_lockstep (plain_settings _) rfl rfl rfl rfl fun _ _ _ _ _ _ => failsPlainly_fail rfl

theorem heading_answersFor (h : Heading) : (compiler.heading h).AnswersFor (compiler.headingFailures h) :=
  (heading_step failsPlainly_lockstep compiler.plain_step h).answersFor

theorem paragraph_answersFor (p : Paragraph) :
    (compiler.paragraph p).AnswersFor (compiler.paragraph p).failure?.toList := by
  have aligned : ∀ raw c, Paragraph.Aligned FailsPlainly compiler compiler raw c :=
    .of_settings failsPlainly_lockstep (plain_settings _) fun _ _ => failsPlainly_fail rfl
  exact (paragraph_step failsPlainly_lockstep compiler.plain_step fun raw _ _ c _ => aligned raw c).answersFor

section

variable {compiler} (collects : compiler.settings.collectErrors = true)
include collects

theorem fanOut_answersFor {α β : Type} {items : List β} {unit : β → Logged α} {reported : β → List Failure}
    (each : ∀ item ∈ items, (unit item).AnswersFor (reported item)) :
    (compiler.fanOut (items.map unit)).AnswersFor (items.flatMap reported) := by
  unfold fanOut
  rw [collects]
  exact FanOut.run_answersFor each _

theorem fanOut_several {α : Type} {units : List (Logged α)} {failure : Failure}
    (stopped : (compiler.fanOut units).outcome = .error failure) : ∃ failures, failure = .several failures := by
  unfold fanOut at stopped
  rw [collects] at stopped
  exact FanOut.run_several stopped

theorem paragraphs_answersFor (ps : List Paragraph) : (compiler.paragraphs ps).AnswersFor (compiler.paragraphFailures ps) :=
  (fanOut_answersFor collects fun p _ => compiler.paragraph_answersFor p).map _

theorem chapter_answersFor (c : Chapter) : (compiler.chapter c).AnswersFor (compiler.chapterReport c) :=
  (compiler.heading_answersFor c.heading).bind fun _ _ => (paragraphs_answersFor collects c.paragraphs).map _

theorem numberedDocument_answersFor (d : Document) : (compiler.numberedDocument d).AnswersFor (compiler.unitReport d) :=
  (paragraphs_answersFor collects d.preamble).bind fun _ _ =>
    (fanOut_answersFor collects fun c _ => chapter_answersFor collects c).map _

-- A document fails for what one of its fan-outs has collected.
theorem numberedDocument_several {d : Document} {failure : Failure}
    (stopped : (compiler.numberedDocument d).outcome = .error failure) : ∃ failures, failure = .several failures := by
  rcases outcome_bind_error.mp stopped with preamble | ⟨_,_,stopped⟩
  · rcases outcome_bind_error.mp preamble with here | ⟨_,_,none⟩
    · exact fanOut_several collects here
    · cases none
  · rcases outcome_bind_error.mp stopped with here | ⟨_,_,none⟩
    · exact fanOut_several collects here
    · cases none

end

-- What is collected is what does not stand behind a failure, and that is every failure if none of them is so hidden.
theorem collected_report (compiler : Compiler) (collects : compiler.settings.collectErrors = true) (d : Document) :
    let inside := compiler.inDocument d.name
    let failures := inside.unitFailures d.withNuids
    let reported := inside.unitReport d.withNuids
    (failures = [] → ∃ draft, (compiler.document d).outcome = .ok draft) ∧
      (failures ≠ [] → ∃ bucket, (compiler.document d).outcome = .error (.several bucket) ∧
        bucket.flatMap flatten = reported ∧ reported ≠ []) ∧
      reported.Sublist failures ∧ (reported = failures ↔ inside.Unhidden d.withNuids) := by
  intro inside failures reported
  have collected : inside.settings.collectErrors = true := collects
  have answers : (inside.numberedDocument d.withNuids).AnswersFor reported := numberedDocument_answersFor collected _
  have outcome : (compiler.document d).outcome = (inside.numberedDocument d.withNuids).outcome := by
    unfold document
    rw [bind_ok (outcome_debug _ _)]
  have shown : reported = [] ↔ failures = [] := inside.unitReport_nil d.withNuids
  rw [outcome]
  refine ⟨?passing,?failing,inside.unitReport_sublist d.withNuids,inside.unitReport_all d.withNuids⟩
  case passing => exact fun none => answers.succeeds (shown.mpr none)
  case failing =>
    intro some
    have someShown : reported ≠ [] := mt shown.mp some
    obtain ⟨failure,stopped,flat⟩ := answers.fails someShown
    obtain ⟨bucket,rfl⟩ := numberedDocument_several collected stopped
    exact ⟨bucket,stopped,(flatten_several bucket).symm.trans flat,someShown⟩

-- A list with a line that is no item.
def brokenList (line : Text) : Paragraph :=
  .leaf ("- a\n" ++ line) "list" none .list

def strictCollector : Compiler :=
  ⟨Inline.standard,{ strictLists := true, strictReferences := true, collectErrors := true },⟨none,none⟩,⟨⟨[],[]⟩,[]⟩⟩

-- Two failures in one chapter, and the heading of the next one with a reference that is not known.
def brokenChapters : Document :=
  ⟨"d",[],[⟨{ level := 1, title := "T" },[],[brokenList "x",brokenList "y"]⟩,⟨{ level := 1, title := "&k&" },[],[]⟩],none⟩

def brokenTexts : List Text :=
  ["invalid list item `x`","invalid list item `y`","reference `k` not found"]

theorem collected_report_chapters :
    let inside := strictCollector.inDocument brokenChapters.name
    let failures := inside.unitFailures brokenChapters.withNuids
    strictCollector.settings.collectErrors = true ∧ failures ≠ [] ∧ inside.Unhidden brokenChapters.withNuids ∧
      failures.map message = brokenTexts ∧ ∃ bucket,
        (strictCollector.document brokenChapters).outcome = .error (.several bucket) ∧ bucket.flatMap flatten = failures := by
  intro inside failures
  have texts : failures.map message = brokenTexts := by decide +kernel
  have some : failures ≠ [] := by
    intro none
    rw [none] at texts
    cases texts
  have unhidden : inside.Unhidden brokenChapters.withNuids := ⟨Or.inl rfl,by decide +kernel⟩
  obtain ⟨_,failing,_,whole⟩ := collected_report strictCollector rfl brokenChapters
  obtain ⟨bucket,outcome,reported,_⟩ := failing some
  exact ⟨rfl,some,unhidden,texts,bucket,outcome,reported.trans (whole.mpr unhidden)⟩

-- One failure in the preamble and one in the chapter.
def brokenThroughout : Document :=
  ⟨"d",[brokenList "x"],[⟨{ level := 1, title := "T" },[],[brokenList "y"]⟩],none⟩

-- The second one is not reported.
theorem collected_preamble_hides :
    let inside := strictCollector.inDocument brokenThroughout.name
    let failures := inside.unitFailures brokenThroughout.withNuids
    strictCollector.settings.collectErrors = true ∧
      failures.map message = [("invalid list item `x`" : Text),("invalid list item `y`" : Text)] ∧
      ∃ failure, (strictCollector.document brokenThroughout).outcome = .error failure ∧
        failure.flatten.map message = [("invalid list item `x`" : Text)] ∧ failure.flatten ≠ failures := by
  intro inside failures
  have texts : failures.map message = [("invalid list item `x`" : Text),("invalid list item `y`" : Text)] := by
    decide +kernel
  have stopped : (strictCollector.document brokenThroughout).failure?.map (fun failure => failure.flatten.map message) =
      some [("invalid list item `x`" : Text)] := by decide +kernel
  obtain ⟨failure,found,reported⟩ := Option.map_eq_some_iff.mp stopped
  refine ⟨rfl,texts,failure,failure?_some.mp found,reported,fun same => ?_⟩
  rw [same] at reported
  cases texts.symm.trans reported

end Compiler
end LightMarkup
