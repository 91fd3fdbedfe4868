import LightMarkup.Document.Compile
import LightMarkup.Proofs.Construct.Rematching
import LightMarkup.Proofs.Loading.Lockstep
import LightMarkup.Proofs.Loading.Origin

/-!
Compiling a document twice: a relation between runs that holds of every match that is rewritten, of the items of a list and
of an image's source holds of whole documents.
-/

namespace LightMarkup

theorem Anchor.inDocument_ordinary (identifier : Text) (document : Option Text) :
    Ordinary (Anchor.inDocument identifier document) := by
  cases document with
  | none => exact .error rfl
  | some name => exact .ok _

theorem Anchor.inDocument?_ordinary (document identifier : Option Text) :
    Ordinary (Anchor.inDocument? document identifier) := by
  cases identifier with
  | none => exact .ok none
  | some identifier => exact (Anchor.inDocument_ordinary identifier document).map

theorem Link.ofText_ordinary (raw : Text) (document : Option Text) : Ordinary (Link.ofText raw document) := by
  have anchored : ∀ identifier, Ordinary (Link.toAnchor identifier document) := by
    intro identifier
    cases document with
    | none => exact .error rfl
    | some name => exact .ok _
  unfold Link.ofText
  dsimp only
  refine .ite (.ok _) ?_
  split
  · exact anchored _
  · split
    · exact .ok _
    · exact .ite (.ok _) (.ok _)

theorem Draft.slice_ordinary (d : Draft) (start stop : Nat) (boundary : Boundary) :
    Ordinary (d.slice start stop boundary) :=
  .ite (.error rfl) (.ite (.error rfl) (.ite (.ok _) (.ok _)))

theorem GroupKey.ofText_ordinary (key : Text) : Ordinary (GroupKey.ofText key) := by
  unfold GroupKey.ofText
  refine .ite ?_ (.ok _)
  split
  · exact .ok _
  · exact .error rfl

theorem GroupKey.resolve_ordinary (key : GroupKey) (pattern : Pattern) : Ordinary (key.resolve pattern) := by
  unfold GroupKey.resolve
  split
  · exact .ite (.ok _) (.error rfl)
  · split
    · exact .ok _
    · exact .error rfl

namespace Rewriting

theorem expandGroup_ordinary (r : Rewriting) (links identifiers : List GroupKey) (key : Text) :
    Ordinary (r.expandGroup links identifiers key) := by
  have groupText : ∀ key, Ordinary (r.groupText key) := fun key => .bind (key.resolve_ordinary _) fun n _ => .ok _
  refine .ite (.ok _) (.bind (GroupKey.ofText_ordinary key) fun key _ => .bind (groupText key) fun text _ => ?_)
  refine .ite (.bind (Link.ofText_ordinary _ _) fun link _ => .ok _) ?_
  exact .ite (.bind (Anchor.inDocument_ordinary _ _) fun anchor _ => .ok _) (.ok _)

theorem expand_ordinary (r : Rewriting) (links identifiers : List GroupKey) (items : Template) :
    Ordinary (r.expand links identifiers items) := by
  induction items with
  | nil => exact .ok []
  | cons item items ih =>
    cases item with
    | text t => exact .bind ih fun rest _ => .ok _
    | group key => exact .bind (r.expandGroup_ordinary links identifiers key) fun text _ => .bind ih fun rest _ => .ok _

theorem build_ordinary (r : Rewriting) (piece : Piece) : Ordinary (r.build piece) := by
  cases piece with
  | template items links identifiers replacements =>
    exact .bind (r.expand_ordinary links identifiers items) fun text _ => .ok _
  | capture group escape =>
    refine .bind (group.resolve_ordinary _) fun n _ => ?_
    split
    · exact .ok _
    · exact .bind (r.draft.slice_ordinary _ _ _) fun parts _ => .ok _
  | opening tag baseClass style identifier withNuid => exact .bind (Anchor.inDocument?_ordinary _ _) fun anchor _ => .ok _
  | codeOpening => exact .ok _
  | whole => exact .ok _

theorem buildAll_ordinary (r : Rewriting) (pieces : List Piece) : Ordinary (r.buildAll pieces) := by
  induction pieces with
  | nil => exact .ok []
  | cons piece pieces ih => exact .bind (r.build_ordinary piece) fun parts _ => .bind ih fun rest _ => .ok _

end Rewriting

-- Two compilers that go in step on every draft, every text of a list and every source of an image.
structure Compiler.UnitStep (R : {α : Type} → Logged α → Logged α → Prop) (one two : Compiler) : Prop where
  context : one.context = two.context
  bullets : one.settings.bullets = two.settings.bullets
  draft : ∀ context (d : Draft), R (d.compile one.constructs one.settings context) (d.compile two.constructs two.settings context)
  items : ∀ raw, R (ListItem.ofText one.settings.strictLists raw) (ListItem.ofText two.settings.strictLists raw)
  source : ∀ source, R (ImageSource.resolve one.settings one.resources source)
    (ImageSource.resolve two.settings two.resources source)

-- Two such compilers whose fan-outs go in step too.
structure Compiler.InStep (R : {α : Type} → Logged α → Logged α → Prop) (one two : Compiler) : Prop
    extends Compiler.UnitStep R one two where
  fanOut : ∀ {α : Type} {units others : List (Logged α)}, List.Forall₂ R units others →
    R (one.fanOut units) (two.fanOut others)

section

variable {R : {α : Type} → Logged α → Logged α → Prop} {one two : Compiler}

theorem Compiler.UnitStep.inDocument (steps : one.UnitStep R two) (name : Text) :
    (one.inDocument name).UnitStep R (two.inDocument name) :=
  ⟨by simp [Compiler.inDocument,steps.context],steps.bullets,steps.draft,steps.items,steps.source⟩

theorem Compiler.InStep.inDocument (steps : one.InStep R two) (name : Text) :
    (one.inDocument name).InStep R (two.inDocument name) :=
  ⟨steps.toUnitStep.inDocument name,steps.fanOut⟩

end

section

variable {R : {α : Type} → Logged α → Logged α → Prop} (lockstep : Lockstep R)

-- Every match that a construct rewrites is rewritten in step.
def Construct.RewritesInStep (R : {α : Type} → Logged α → Logged α → Prop) (one two : CompileSettings) (c : Construct) : Prop :=
  ∀ context d, ∀ m ∈ c.pattern.occurrences (visibleContentOf (some c.name) d.parts),
    R (c.rewriteMatch one context (c.handed d m.span)) (c.rewriteMatch two context (c.handed d m.span))

section

variable {one two : CompileSettings}
include lockstep

theorem Construct.apply_step {c : Construct} (rewrites : c.RewritesInStep R one two) (context : Context) (d : Draft) :
    R (c.apply one context d) (c.apply two context d) := by
  have ordered := Draft.spansOf_inOrder c.name c.pattern d
  rw [Construct.apply,Construct.apply,Draft.applyAt_eq ordered,Draft.applyAt_eq ordered]
  split
  · exact lockstep.pure d
  · refine lockstep.bind (lockstep.debug _ _) fun _ _ =>
      lockstep.bind (lockstep.mapM fun span member => ?_) fun outs _ => lockstep.pure _
    obtain ⟨m,found,rfl⟩ := List.mem_map.mp member
    exact rewrites context d m found

variable (excluded : one.excluded = two.excluded)
include excluded

theorem Construct.applyEach_step {constructs : List Construct} (rewrites : ∀ c ∈ constructs, c.RewritesInStep R one two)
    (context : Context) : ∀ d, R (Construct.applyEach one context constructs d) (Construct.applyEach two context constructs d) := by
  induction constructs with
  | nil => exact fun d => lockstep.pure d
  | cons c rest ih =>
    obtain ⟨here,others⟩ := List.forall_mem_cons.mp rewrites
    intro d
    simp only [applyEach]
    rw [excluded]
    split
    · exact ih others d
    · exact lockstep.bind (apply_step lockstep here context d) fun next _ => ih others next

theorem Draft.compile_step {constructs : List Construct} (rewrites : ∀ c ∈ constructs, c.RewritesInStep R one two)
    (context : Context) (d : Draft) : R (d.compile constructs one context) (d.compile constructs two context) := by
  rw [Draft.compile,Draft.compile,excluded]
  split
  · exact lockstep.pure d
  · exact Construct.applyEach_step lockstep excluded rewrites context d

end

variable {one two : Compiler} (steps : one.UnitStep R two)
include steps

theorem Compiler.inline_step (d : Draft) : R (one.inline d) (two.inline d) := by
  rw [inline,inline,← steps.context]
  exact steps.draft _ d

include lockstep

namespace Paragraph

theorem imageParts_step (nuid : Option Text) (image : Image) :
    R (imageParts one nuid image) (imageParts two nuid image) := by
  have anchors : Ordinary (imageAnchor one.context image) := by
    unfold imageAnchor
    split
    · exact (Anchor.inDocument_ordinary _ _).map
    · split
      · exact .ok _
      · exact .ok _
  unfold imageParts
  rw [← steps.context]
  exact lockstep.bind (lockstep.except anchors) fun anchor _ => lockstep.bind (steps.source _) fun source _ => lockstep.pure _

theorem rowImagesParts_step (images : List Image) : R (rowImagesParts one images) (rowImagesParts two images) := by
  induction images with
  | nil => exact lockstep.pure []
  | cons image images ih =>
    have here : R (rowImageParts one image) (rowImageParts two image) :=
      lockstep.bind (imageParts_step lockstep steps none image) fun parts _ => lockstep.pure _
    exact lockstep.bind here fun parts _ => lockstep.bind ih fun rest _ => lockstep.pure _

-- The texts that constructs rewrite as a whole go in step too.
def Aligned (R : {α : Type} → Logged α → Logged α → Prop) (one two : Compiler) (raw : Text) (c : Construct) : Prop :=
  ∀ context nuid, R (c.rewriteMatch one.settings context ⟨[.live raw .nothing],nuid,some c.name⟩)
    (c.rewriteMatch two.settings context ⟨[.live raw .nothing],nuid,some c.name⟩)

theorem compileLeaf_step {raw : Text} {body : Leaf} (aligned : ∀ c, body = .replacement c → Aligned R one two raw c)
    (nuid : Option Text) : R (compileLeaf one raw nuid body) (compileLeaf two raw nuid body) := by
  have inline := Compiler.inline_step steps
  cases body with
  | common => exact lockstep.bind (inline _) fun d _ => lockstep.pure _
  | replacement c =>
    simp only [compileLeaf]
    rw [← steps.context]
    exact lockstep.bind (aligned c rfl _ _) fun parts _ => inline _
  | list =>
    simp only [compileLeaf]
    rw [← steps.bullets]
    exact lockstep.bind (steps.items raw) fun items _ => inline _
  | table =>
    simp only [compileLeaf]
    rw [← steps.context]
    exact lockstep.bind (lockstep.except (Anchor.inDocument?_ordinary _ _)) fun anchor _ => inline _
  | image image => exact lockstep.bind (imageParts_step lockstep steps nuid image) fun parts _ => inline _
  | imageRow images alignment =>
    have row : R (imageRowParts one images alignment nuid) (imageRowParts two images alignment nuid) :=
      lockstep.bind (rowImagesParts_step lockstep steps images) fun parts _ => lockstep.pure _
    exact lockstep.bind row fun parts _ => inline _

omit lockstep steps

mutual

theorem compile_step (lockstep : Lockstep R) (steps : one.UnitStep R two) :
    (p : Paragraph) → Replaces (Aligned R one two) p → R (p.compile one) (p.compile two)
  | .leaf _ _ nuid _, aligned => compileLeaf_step lockstep steps (replaces_leaf.mp aligned) nuid
  | .container _ _ _ _ _ nested, aligned =>
    lockstep.bind (compileNested_step lockstep steps nested (replaces_container.mp aligned)) fun _ _ => lockstep.pure _

theorem compileNested_step (lockstep : Lockstep R) (steps : one.UnitStep R two) :
    (ps : List Paragraph) → (∀ p ∈ ps, Replaces (Aligned R one two) p) → R (compileNested one ps) (compileNested two ps)
  | [], _ => lockstep.pure []
  | p :: ps, aligned =>
    lockstep.bind (compile_step lockstep steps p (aligned p (List.mem_cons_self ..))) fun _ _ =>
      lockstep.bind (compileNested_step lockstep steps ps fun q member => aligned q (List.mem_cons_of_mem _ member))
        fun _ _ => lockstep.pure _

end

end Paragraph
end

-- It holds of every text that a construct rewrites as a whole in the document.
structure Document.Replaces (P : Text → Construct → Prop) (d : Document) : Prop where
  preamble : ∀ p ∈ d.preamble, p.Replaces P
  chapters : ∀ chapter ∈ d.chapters, ∀ p ∈ chapter.paragraphs, p.Replaces P

section

variable {R : {α : Type} → Logged α → Logged α → Prop} (lockstep : Lockstep R) {one two : Compiler}
include lockstep

namespace Compiler

theorem paragraph_step (steps : one.UnitStep R two) {p : Paragraph} (aligned : p.Replaces (Paragraph.Aligned R one two)) :
    R (one.paragraph p) (two.paragraph p) :=
  lockstep.bind (lockstep.debug _ _) fun _ _ => Paragraph.compile_step lockstep steps p aligned

theorem heading_step (steps : one.UnitStep R two) (h : Heading) : R (one.heading h) (two.heading h) := by
  unfold heading
  rw [← steps.context]
  exact lockstep.bind (inline_step steps _) fun title _ => lockstep.pure _

variable (steps : one.InStep R two)
include steps

theorem paragraphs_step {ps : List Paragraph} (aligned : ∀ p ∈ ps, p.Replaces (Paragraph.Aligned R one two)) :
    R (one.paragraphs ps) (two.paragraphs ps) := by
  refine lockstep.bind (steps.fanOut ?_) fun drafts _ => lockstep.pure _
  rw [List.forall₂_map_left_iff,List.forall₂_map_right_iff,List.forall₂_same]
  exact fun p member => paragraph_step lockstep steps.toUnitStep (aligned p member)

theorem chapter_step {chapter : Chapter}
    (aligned : ∀ p ∈ chapter.paragraphs, p.Replaces (Paragraph.Aligned R one two)) :
    R (one.chapter chapter) (two.chapter chapter) :=
  lockstep.bind (heading_step lockstep steps.toUnitStep chapter.heading) fun _ _ =>
    lockstep.bind (paragraphs_step lockstep steps aligned) fun _ _ => lockstep.pure _

theorem numberedDocument_step {d : Document} (aligned : d.Replaces (Paragraph.Aligned R one two)) :
    R (one.numberedDocument d) (two.numberedDocument d) := by
  refine lockstep.bind (paragraphs_step lockstep steps aligned.preamble) fun preamble _ =>
    lockstep.bind (steps.fanOut ?_) fun chapters _ => lockstep.pure _
  rw [List.forall₂_map_left_iff,List.forall₂_map_right_iff,List.forall₂_same]
  exact fun chapter member => chapter_step lockstep steps (aligned.chapters chapter member)

end Compiler
end

section

variable {P : Text → Construct → Prop}

namespace Document

open Paragraph

mutual

theorem numberParagraph_replaces (name : Text) (seen : List Text) :
    (p : Paragraph) → p.Replaces P → (numberParagraph name seen p).Replaces P
  | .leaf _ _ _ _, here => replaces_leaf.mpr (replaces_leaf.mp here)
  | .container raw _ _ _ _ nested, here =>
    replaces_container.mpr (numberParagraphs_replaces name (seen ++ [raw]) nested (replaces_container.mp here))

theorem numberParagraphs_replaces (name : Text) (seen : List Text) :
    (ps : List Paragraph) → (∀ p ∈ ps, p.Replaces P) → ∀ p ∈ numberParagraphs name seen ps, p.Replaces P
  | [], here => here
  | p :: ps, here => List.forall_mem_cons.mpr
    ⟨numberParagraph_replaces name seen p (here p (List.mem_cons_self ..)),
      numberParagraphs_replaces name (seen ++ p.contents) ps fun q member => here q (List.mem_cons_of_mem _ member)⟩

end

theorem numberChapters_replaces {name : Text} {seen : List Text} {chapters : List Chapter}
    (here : ∀ chapter ∈ chapters, ∀ p ∈ chapter.paragraphs, p.Replaces P) :
    ∀ chapter ∈ numberChapters name seen chapters, ∀ p ∈ chapter.paragraphs, p.Replaces P := by
  induction chapters generalizing seen with
  | nil => exact List.forall_mem_nil _
  | cons chapter rest ih =>
    obtain ⟨first,others⟩ := List.forall_mem_cons.mp here
    exact List.forall_mem_cons.mpr ⟨numberParagraphs_replaces name seen _ first,ih others⟩

theorem numberHeadings_replaces {name : Text} {seen : List Text} {chapters : List Chapter}
    (here : ∀ chapter ∈ chapters, ∀ p ∈ chapter.paragraphs, p.Replaces P) :
    ∀ chapter ∈ numberHeadings name seen chapters, ∀ p ∈ chapter.paragraphs, p.Replaces P := by
  induction chapters generalizing seen with
  | nil => exact List.forall_mem_nil _
  | cons chapter rest ih =>
    obtain ⟨first,others⟩ := List.forall_mem_cons.mp here
    exact List.forall_mem_cons.mpr ⟨first,ih others⟩

-- Numbers change nothing else.
theorem Replaces.withNuids {d : Document} (here : d.Replaces P) : d.withNuids.Replaces P :=
  ⟨numberParagraphs_replaces d.name [] d.preamble here.preamble,
    numberHeadings_replaces (numberChapters_replaces here.chapters)⟩

theorem addTo_paragraphs (items : List ChapterItem) (chapter : Chapter) :
    (items.foldl ChapterItem.addTo chapter).paragraphs = chapter.paragraphs ++ items.filterMap ChapterItem.paragraph? := by
  induction items generalizing chapter with
  | nil => simp
  | cons item items ih =>
    rw [List.foldl_cons,ih]
    cases item with
    | tag tag =>
      have same : (chapter.addTag tag).paragraphs = chapter.paragraphs := by
        unfold Chapter.addTag
        dsimp only
        split <;> rfl
      exact congrArg (· ++ _) same
    | paragraph p => simp [ChapterItem.addTo,ChapterItem.paragraph?,Chapter.addParagraph]

-- Every paragraph of a document stands in its preamble or in one of its chapters, and no others do.
theorem divide_every {Q : Paragraph → Prop} {contents : List BlockContent} (every : ∀ p, .paragraph p ∈ contents → Q p) :
    (∀ p ∈ (divide contents).1.filterMap ChapterItem.paragraph?, Q p) ∧
      ∀ chapter ∈ (divide contents).2, ∀ p ∈ chapter.paragraphs, Q p := by
  induction contents with
  | nil => exact ⟨List.forall_mem_nil _,List.forall_mem_nil _⟩
  | cons content rest ih =>
    obtain ⟨items,chapters⟩ := ih fun p member => every p (List.mem_cons_of_mem _ member)
    cases content with
    | heading heading =>
      refine ⟨List.forall_mem_nil _,List.forall_mem_cons.mpr ⟨?_,chapters⟩⟩
      rw [addTo_paragraphs]
      exact items
    | tag tag => exact ⟨items,chapters⟩
    | paragraph p => exact ⟨List.forall_mem_cons.mpr ⟨every p (List.mem_cons_self ..),items⟩,chapters⟩

theorem ofText_replaces {catalogue : Catalogue} {settings : LoadSettings} {name t : Text} {d : Document}
    (every : ∀ blocks, (Loader.load catalogue settings t).outcome = .ok blocks →
      PlacedBlock.Every (Paragraph.Replaces P) blocks)
    (run : (ofText catalogue settings name t).outcome = .ok d) : d.Replaces P := by
  obtain ⟨_,_,run⟩ := Logged.outcome_bind_ok.mp run
  obtain ⟨blocks,loaded,run⟩ := Logged.outcome_bind_ok.mp run
  obtain ⟨_,_,same⟩ := Logged.outcome_bind_ok.mp run
  cases same
  have here : ∀ p, .paragraph p ∈ blocks.map PlacedBlock.content → p.Replaces P := by
    intro p member
    obtain ⟨block,isBlock,content⟩ := List.mem_map.mp member
    exact every blocks loaded block isBlock p content
  obtain ⟨preamble,chapters⟩ := divide_every here
  exact ⟨preamble,chapters⟩

end Document

end

section

variable {R : {α : Type} → Logged α → Logged α → Prop} (lockstep : Lockstep R)
include lockstep

theorem Document.ofText_step {catalogue : Catalogue} {one two : LoadSettings} (steps : catalogue.InStep R one two)
    (name t : Text) : R (ofText catalogue one name t) (ofText catalogue two name t) := by
  refine lockstep.bind (lockstep.debug _ _) fun _ _ => lockstep.bind (Loader.load_step lockstep steps t) fun blocks _ => ?_
  have warns : ∀ items : List ChapterItem, R (warnOfTags name items) (warnOfTags name items) := by
    intro items
    induction items with
    | nil => exact lockstep.pure _
    | cons item items ih =>
      cases item with
      | tag tag => exact lockstep.bind (lockstep.write rfl) fun _ _ => ih
      | paragraph p => exact ih
  unfold ofContents
  dsimp only
  exact lockstep.bind (warns _) fun _ _ => lockstep.pure _

theorem Compiler.document_step {one two : Compiler} (steps : one.InStep R two) {d : Document}
    (aligned : d.Replaces (Paragraph.Aligned R one two)) : R (one.document d) (two.document d) := by
  refine lockstep.bind (lockstep.debug _ _) fun _ _ => ?_
  exact numberedDocument_step lockstep (steps.inDocument d.name) aligned.withNuids

end
end LightMarkup
