import LightMarkup.Proofs.Complaints
import LightMarkup.Proofs.Loading.Rematching
import LightMarkup.Proofs.Paragraph.Replacement

/-!
A text that is loaded and compiled: whatever a construct has matched is matched again where it is looked at on its own, in
the same groups, so that no run fails because it is not.
-/

namespace LightMarkup
namespace Failure

mutual

-- Whether it says that a match was not found again.
def unmatches : Failure → Bool
  | .unmatchedRule _ _ => true
  | .resource (.focusBlock _) => true
  | .resource (.multiImage _) => true
  | .several failures => anyUnmatches failures
  | _ => false

def anyUnmatches : List Failure → Bool
  | [] => false
  | failure :: rest => failure.unmatches || anyUnmatches rest

end

theorem anyUnmatches_eq (failures : List Failure) : anyUnmatches failures = failures.any unmatches := by
  induction failures with
  | nil => rfl
  | cons failure rest ih => rw [anyUnmatches,ih,List.any_cons]

theorem ordinary_matches {failure : Failure} (ordinary : failure.isOrdinary = true) : failure.unmatches = false := by
  cases failure with
  | resource cause =>
    cases cause with
    | image raw => rfl
    | _ => cases ordinary
  | several failures => cases ordinary
  | unmatchedRule construct content => cases ordinary
  | _ => rfl

end Failure

namespace Logged

variable {α : Type}

-- The run does not fail because a match is not found again.
def Rematches (x _ : Logged α) : Prop :=
  ∀ failure, x.outcome = .error failure → failure.unmatches = false

theorem rematches_fail {failure : Failure} (other : failure.unmatches = false) :
    Rematches (.fail failure : Logged α) (.fail failure) := by
  intro stopped same
  cases same
  exact other

theorem rematches_lockstep : Lockstep Rematches where
  except ordinary failure stopped := Failure.ordinary_matches (ordinary failure stopped)
  write _ _ stopped := nomatch stopped
  bind here later failure stopped := by
    rcases outcome_bind_error.mp stopped with first | ⟨a,ran,next⟩
    · exact here failure first
    · exact later a ran failure next

theorem rematches_fanOut {units others : List (Logged α)} (parallel collect : Bool)
    (each : List.Forall₂ Rematches units others) :
    Rematches (FanOut.run parallel collect units) (FanOut.run parallel collect others) := by
  have failed : ∀ failure ∈ FanOut.failures units, failure.unmatches = false := by
    intro failure member
    obtain ⟨unit,isUnit,failing⟩ := List.mem_filterMap.mp member
    have stopped : unit.outcome = .error failure := by
      unfold failure? at failing
      split at failing
      · cases failing
      · rename_i same
        cases failing
        exact same
    obtain ⟨i,bound,rfl⟩ := List.mem_iff_getElem.mp isUnit
    exact each.get bound (each.length_eq ▸ bound) failure stopped
  have all : ∀ {fail : Failure → List Failure → Failure}, (∀ first others, (∀ failure ∈ first :: others,
      failure.unmatches = false) → (fail first others).unmatches = false) →
        Rematches (FanOut.all fail units) (FanOut.all fail others) := by
    intro fail kept failure stopped
    unfold FanOut.all at stopped
    dsimp only at stopped
    split at stopped
    · cases stopped
    · rename_i first rest failures
      cases stopped
      exact kept first rest (failures ▸ failed)
  unfold FanOut.run
  split
  · refine all fun first others each => ?_
    rw [Failure.unmatches,Failure.anyUnmatches_eq,List.any_eq_false]
    exact fun failure member => by simp [each failure member]
  · have lengths := each.length_eq
    rw [lengths]
    split
    · exact all fun first others each => each first (List.mem_cons_self ..)
    · exact rematches_lockstep.inOrder each

theorem rematches_complains (strict : Bool) : Complains Rematches strict strict := by
  intro failure entry reports
  cases strict with
  | false => exact fun _ stopped => nomatch stopped
  | true =>
    refine rematches_fail ?_
    cases reports <;> rfl

end Logged

namespace Catalogue

-- What can be loaded by a catalogue is loaded by a standard construct.
theorem Derived.loads {c : Catalogue} (derived : Derived c) :
    ∀ construct ∈ c.blocks, ∀ loading ∈ construct.loading, construct ∈ Block.standard := by
  induction derived with
  | standard => exact fun construct member _ _ => member
  | retain names _ ih => exact fun construct member => ih construct (List.mem_filter.mp member).1
  | remove names _ ih => exact fun construct member => ih construct (List.mem_filter.mp member).1
  | unload names _ ih =>
    intro construct member loading isLoading
    obtain ⟨kept,isKept,rfl⟩ := List.mem_map.mp member
    unfold unloadConstruct at isLoading ⊢
    split at isLoading
    · cases isLoading
    · rename_i known
      rw [if_neg known]
      exact ih kept isKept loading isLoading

end Catalogue

namespace Block

variable {construct : BlockConstruct} {place : Cursor} {m : Match} {loading : Loading}

theorem blockAt_again (member : construct ∈ standard) (isLoading : loading ∈ construct.loading)
    (other : loading ∉ [.table,.quote,.list]) (found : construct.blockAt? place = some m) : construct.pattern.Again m := by
  refine standard_again member ?_ (Option.filter_eq_some_iff.mp found).1
  intro lines
  refine other ?_
  simp only [List.mem_cons,List.not_mem_nil,or_false] at lines
  rcases lines with rfl | rfl | rfl <;> cases isLoading <;> decide

-- Of the standard constructs a single one loads its blocks in this way.
theorem loads_only {only : BlockConstruct} (single : standard.filter (·.loading == some loading) = [only])
    (member : construct ∈ standard) (isLoading : loading ∈ construct.loading) : construct = only :=
  List.mem_singleton.mp (single ▸ List.mem_filter.mpr ⟨member,by rw [Option.mem_def.mp isLoading]; exact beq_self_eq_true _⟩)

theorem loads_image (member : construct ∈ standard) (isLoading : .image ∈ construct.loading) :
    construct ∈ [abridgedImage,image] := by
  have only : standard.filter (·.loading == some .image) = [abridgedImage,image] := rfl
  exact only ▸ List.mem_filter.mpr ⟨member,by rw [Option.mem_def.mp isLoading]; rfl⟩

-- A block of the construct, which is found again in its own text and is all of it.
def FoundAgain (construct : BlockConstruct) (raw : Text) : Prop :=
  ∃ place m, construct.blockAt? place = some m ∧ m.text = raw ∧ construct.pattern.Again m

-- A text that its construct is going to rewrite as a whole.
def Rewritable (raw : Text) (c : Construct) : Prop :=
  ∃ construct ∈ standard, rewriting? construct = some c ∧ FoundAgain construct raw

end Block

-- Whatever is looked for once more in the text of a paragraph is there.
def Paragraph.Rematches : Paragraph → Prop
  | .leaf raw _ _ (.replacement c) => Block.Rewritable raw c
  | .leaf raw name _ (.image _) =>
    Text.trim raw = raw ∧ ∃ construct ∈ [Block.abridgedImage,Block.image], construct.name = name ∧
      Block.FoundAgain construct raw
  | .leaf raw _ _ (.imageRow _ _) => Text.trim raw = raw ∧ Block.FoundAgain Block.imageRow raw
  | .container raw _ _ .focus _ _ => Block.FoundAgain Block.focus raw
  | _ => True

section

open Block

variable {catalogue : Catalogue} (derived : catalogue.Derived)
include derived

theorem Catalogue.makes_rematches (settings : LoadSettings) :
    catalogue.Makes settings (Paragraph.Throughout Paragraph.Rematches) := by
  refine makes_throughout ?_ ?_
  · intro construct member loading isLoading c m found p gives
    have known := derived.loads construct member loading isLoading
    have again := fun other => blockAt_again known isLoading other found
    have matched := (Option.filter_eq_some_iff.mp found).1
    cases gives with
    | replacement pieces =>
      exact ⟨construct,known,by rw [rewriting?,Option.mem_def.mp isLoading],c,m,found,rfl,again (by simp)⟩
    | image image =>
      have kind := loads_image known isLoading
      exact ⟨image_trimmed (List.mem_cons_of_mem _ kind) matched,construct,kind,rfl,c,m,found,rfl,again (by simp)⟩
    | imageRow images alignment =>
      obtain rfl : construct = imageRow := loads_only rfl known isLoading
      exact ⟨image_trimmed (List.mem_cons_self ..) matched,c,m,found,rfl,again (by decide)⟩
    | focus type all =>
      obtain rfl : construct = focus := loads_only rfl known isLoading
      exact ⟨c,m,found,rfl,again (by decide)⟩
    | _ => trivial
  · intro construct member loading isLoading raw p gives
    obtain rfl := derived.sound.fallback construct member loading isLoading
    cases gives
    trivial

theorem Catalogue.rematches_step (settings : LoadSettings) : catalogue.InStep Logged.Rematches settings settings where
  depth := rfl
  block := by
    intro construct member loading isLoading c m found nested other inside
    have known := derived.loads construct member loading isLoading
    have matched := (Option.filter_eq_some_iff.mp found).1
    refine Loading.load_step Logged.rematches_lockstep (Complains.quotes (Logged.rematches_complains _)) ?_ ?_ inside
    · rintro rfl missing
      obtain ⟨n,_,_,_,full⟩ := blockAt_again known isLoading (by decide) found
      obtain rfl : construct = imageRow := loads_only rfl known isLoading
      rw [image_trimmed (List.mem_cons_self ..) matched,full] at missing
      cases missing
    · rintro rfl missing
      obtain ⟨n,_,_,start,_⟩ := blockAt_again known isLoading (by decide) found
      obtain rfl : construct = focus := loads_only rfl known isLoading
      rw [start] at missing
      cases missing
  fallback := by
    intro construct member loading isLoading raw nested other inside
    obtain rfl := derived.sound.fallback construct member loading isLoading
    exact Logged.rematches_lockstep.pure _
  skip construct _ := Logged.rematches_complains settings.strictLoadingRules (.loadingRule construct.name)

end

theorem CompileSettings.rematches_step (settings : CompileSettings) : settings.InStep Logged.Rematches settings :=
  .same Logged.rematches_complains settings

theorem Compiler.rematches_step {compiler : Compiler} (known : compiler.constructs ⊆ Inline.standard) :
    compiler.InStep Logged.Rematches compiler := by
  refine ⟨.of_settings Logged.rematches_lockstep (CompileSettings.rematches_step _) rfl rfl rfl rfl ?_,
    Logged.rematches_fanOut _ _⟩
  intro c member d m found content missing
  obtain ⟨n,_,searched⟩ := Construct.standard_rematches (known member) found
  rw [searched] at missing
  cases missing

theorem Block.Rewritable.aligned {raw : Text} {c : Construct} (rewritable : Rewritable raw c) (compiler : Compiler) :
    Paragraph.Aligned Logged.Rematches compiler compiler raw c := by
  intro context nuid
  obtain ⟨construct,_,rewriting,place,m,_,rfl,n,_,searched,_⟩ := rewritable
  have pattern : c.pattern = construct.pattern := by
    unfold rewriting? at rewriting
    split at rewriting
    · cases rewriting
      rfl
    · cases rewriting
  have visible : (⟨[.live m.text .nothing],nuid,some c.name⟩ : Draft).visibleContent = m.text := by
    simp [Draft.visibleContent,visibleContentOf,Part.visibleTo,Exclusion.contains,Part.content]
  unfold Construct.rewriteMatch
  rw [visible,pattern,searched]
  exact Rewriting.parts_step Logged.rematches_lockstep (CompileSettings.rematches_step _) _

namespace Document

open Block

-- Every match of an inline construct, every block that is matched again on its own, and with them every run.
theorem matches_again {catalogue : Catalogue} (derived : catalogue.Derived) (settings : LoadSettings) :
    (∀ construct ∈ Inline.standard, ∀ d : Draft,
      ∀ m ∈ construct.pattern.occurrences (visibleContentOf (some construct.name) d.parts),
        (construct.handed d m.span).visibleContent = m.text ∧
          ∃ n, m.Repeats n ∧ construct.pattern.search? m.text = some n ∧ ∀ compiling context,
            construct.rewriteMatch compiling context (construct.handed d m.span) =
              Rewriting.parts ⟨construct,compiling,context,construct.handed d m.span,n⟩ construct.rewrite) ∧
    (∀ construct ∈ Block.standard, construct ∉ [table,quote,list] → ∀ place m, construct.blockAt? place = some m →
      construct.pattern.Again m ∧ (construct ∈ [imageRow,abridgedImage,image] → Text.trim m.text = m.text)) ∧
    (∀ t blocks, (Loader.load catalogue settings t).outcome = .ok blocks →
      PlacedBlock.Every (Paragraph.Throughout Paragraph.Rematches) blocks) ∧
    ∀ name t (compiler : Compiler), compiler.constructs ⊆ Inline.standard → ∀ failure,
      (ofText catalogue settings name t >>= compiler.document).outcome = .error failure → failure.unmatches = false := by
  refine ⟨?inline,?block,?loaded,?run⟩
  case inline =>
    intro construct member d m found
    obtain ⟨n,repeats,searched⟩ := Construct.standard_rematches member found
    refine ⟨Construct.handed_visible found,n,repeats,Construct.handed_visible found ▸ searched,fun compiling context => ?_⟩
    rw [Construct.rewriteMatch,searched]
  case block =>
    intro construct member other place m found
    have matched := (Option.filter_eq_some_iff.mp found).1
    exact ⟨standard_again member other matched,fun kind => image_trimmed kind matched⟩
  case loaded => exact fun t blocks loaded => Loader.load_every (Catalogue.makes_rematches derived settings) loaded
  case run =>
    intro name t compiler known
    let run := ofText catalogue settings name t >>= compiler.document
    show Logged.Rematches run run
    refine Logged.rematches_lockstep.bind
      (ofText_step Logged.rematches_lockstep (Catalogue.rematches_step derived settings) name t) fun d loaded => ?_
    have replaces : d.Replaces Rewritable := ofText_replaces (fun blocks read block isBlock p isParagraph =>
      fun raw name nuid c inside => Loader.load_every (Catalogue.makes_rematches derived settings) read block isBlock p
        isParagraph _ inside) loaded
    have aligned : d.Replaces (Paragraph.Aligned Logged.Rematches compiler compiler) :=
      ⟨fun p member raw name nuid c inside => (replaces.preamble p member raw name nuid c inside).aligned compiler,
        fun chapter isChapter p member raw name nuid c inside =>
          (replaces.chapters chapter isChapter p member raw name nuid c inside).aligned compiler⟩
    exact Compiler.document_step Logged.rematches_lockstep (Compiler.rematches_step known) aligned

def figureNote : List PlacedBlock :=
  [⟨0,19,.paragraph (.container ":::note\n![a](b)\n:::" "focus-block" none .focus "note"
    [.leaf "![a](b)" "image" none (.image ⟨"b",some "a",none,none,false,none⟩)])⟩]

theorem load_figureNote (inline : List Construct) :
    (Loader.load ⟨inline,Block.standard,some Block.fallback,HeadingConstruct.standard⟩ {} ":::note\n![a](b)\n:::").outcome =
        .ok figureNote ∧
      (Loader.load ⟨inline,Block.standard,some Block.fallback,HeadingConstruct.standard⟩ {} "!![[c]]").outcome =
        .error (.resource (.image "c")) := by
  unfold figureNote Block.standard code math styledWithId identified table
    quote focus list abridgedTodo multilineTodo todo pageBreak lineBreakByDashes lineBreakByStars lineBreakByPluses
    imageRow abridgedImage image comment todoOpening nuidTemplate
  repeat rw [Text.ofString_ofList]
  constructor <;> cbv

theorem matches_again_figureNote : Catalogue.standard.Derived ∧
    (∃ m ∈ Inline.italicByUnderscores.pattern.occurrences "a _b_ c", m.text = "_b_" ∧
      ∃ n, m.Repeats n ∧ Inline.italicByUnderscores.pattern.search? "_b_" = some n) ∧
    ((Loader.load Catalogue.standard {} ":::note\n![a](b)\n:::").outcome = .ok figureNote ∧
      PlacedBlock.Every (Paragraph.Throughout Paragraph.Rematches) figureNote) ∧
    ∃ failure, (ofText Catalogue.standard {} "d" "!![[c]]" >>= Paragraph.plainCompiler.document).outcome = .error failure ∧
      failure.unmatches = false := by
  obtain ⟨inline,_,loaded,run⟩ := matches_again .standard {}
  obtain ⟨read,refused⟩ := load_figureNote Inline.standard
  have texts : (Inline.italicByUnderscores.pattern.occurrences "a _b_ c").map Match.text = [("_b_" : Text)] := by
    decide +kernel
  have single : ("_b_" : Text) ∈ [("_b_" : Text)] := List.mem_singleton_self _
  obtain ⟨m,found,text⟩ := List.mem_map.mp (texts ▸ single)
  have visible : visibleContentOf (some Inline.italicByUnderscores.name) (Draft.ofLive "a _b_ c" .nothing none).parts =
      "a _b_ c" := by decide +kernel
  have member : Inline.italicByUnderscores ∈ Inline.standard := by simp [Inline.standard]
  obtain ⟨_,n,repeats,searched,_⟩ := inline _ member _ m (visible ▸ found)
  have members : Paragraph.plainCompiler.constructs ⊆ Inline.standard := by simp [Paragraph.plainCompiler,Inline.standard]
  have stopped : (ofText Catalogue.standard {} "d" "!![[c]]" >>= Paragraph.plainCompiler.document).outcome =
      .error (.resource (.image "c")) :=
    Logged.outcome_bind_error.mpr (Or.inl (Logged.outcome_bind_error.mpr (Or.inr
      ⟨(),rfl,Logged.outcome_bind_error.mpr (Or.inl refused)⟩)))
  exact ⟨.standard,⟨m,found,text,n,repeats,text ▸ searched⟩,⟨read,loaded _ _ read⟩,_,stopped,run _ _ _ members _ stopped⟩

end Document
end LightMarkup
