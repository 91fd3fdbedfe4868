import LightMarkup.Proofs.Document.Lockstep

/-!
Blocks folded into a document: no block is lost or moved, what stands behind a heading and before the next one is in its
chapter, and the heading has the last identifier that a tag of the chapter gives it.
-/

namespace LightMarkup

namespace BlockContent

def heading? : BlockContent → Option Heading
  | .heading held => some held
  | _ => none

def tag? : BlockContent → Option ChapterTag
  | .tag held => some held
  | _ => none

def paragraph? : BlockContent → Option Paragraph
  | .paragraph held => some held
  | _ => none

-- The blocks before the first heading.
def leading (contents : List BlockContent) : List BlockContent :=
  contents.takeWhile fun content => content.heading?.isNone

end BlockContent

def ChapterItem.tag? : ChapterItem → Option ChapterTag
  | .tag held => some held
  | .paragraph _ => none

-- An empty value identifies nothing.
def ChapterTag.identifier? (tag : ChapterTag) : Option Text :=
  if tag.key = .id then tag.value.filter (!·.isEmpty) else none

def ChapterTag.lastIdentifier? (tags : List ChapterTag) : Option Text :=
  (tags.filterMap identifier?).getLast?

namespace Chapter

-- What a chapter is made of: its heading and the blocks behind it.
def gather (heading : Heading) (contents : List BlockContent) : Chapter where
  heading := { heading with
    identifier := (ChapterTag.lastIdentifier? (contents.filterMap BlockContent.tag?)).or heading.identifier }
  tags := contents.filterMap BlockContent.tag?
  paragraphs := contents.filterMap BlockContent.paragraph?

theorem addTag_eq (chapter : Chapter) (tag : ChapterTag) : chapter.addTag tag =
    { chapter with
      tags := chapter.tags ++ [tag]
      heading := { chapter.heading with identifier := tag.identifier?.or chapter.heading.identifier } } := by
  obtain ⟨key,value⟩ := tag
  cases key with
  | id =>
    rcases value with _ | _ | ⟨c,rest⟩
    · rfl
    · rfl
    · rfl
  | author | date | intent | style | styleClass => rfl

end Chapter

theorem ChapterTag.lastIdentifier_cons (tag : ChapterTag) (tags : List ChapterTag) :
    lastIdentifier? (tag :: tags) = (lastIdentifier? tags).or tag.identifier? := by
  rw [lastIdentifier?,lastIdentifier?,List.filterMap_cons]
  cases tag.identifier? with
  | none => rw [Option.or_none]
  | some held => rw [List.getLast?_cons,Option.or_some]

namespace ChapterItem

-- Later tags win over earlier ones, and over what the heading had.
theorem addTo_heading (items : List ChapterItem) (chapter : Chapter) :
    (items.foldl addTo chapter).heading =
      { chapter.heading with
        identifier := (ChapterTag.lastIdentifier? (items.filterMap tag?)).or chapter.heading.identifier } := by
  induction items generalizing chapter with
  | nil => rfl
  | cons item items ih =>
    rw [List.foldl_cons,ih]
    cases item with
    | tag tag =>
      have first : (ChapterItem.tag tag :: items).filterMap tag? = tag :: items.filterMap tag? := rfl
      rw [addTo,Chapter.addTag_eq,first,ChapterTag.lastIdentifier_cons,Option.or_assoc]
    | paragraph p => rfl

theorem addTo_tags (items : List ChapterItem) (chapter : Chapter) :
    (items.foldl addTo chapter).tags = chapter.tags ++ items.filterMap tag? := by
  induction items generalizing chapter with
  | nil => rw [List.filterMap_nil,List.append_nil]; rfl
  | cons item items ih =>
    rw [List.foldl_cons,ih]
    cases item with
    | tag tag => rw [addTo,Chapter.addTag_eq]; simp [tag?]
    | paragraph p => rfl

end ChapterItem

namespace Document

open BlockContent

variable {contents : List BlockContent}

theorem divide_leading (contents : List BlockContent) :
    (divide contents).1.filterMap ChapterItem.tag? = (leading contents).filterMap BlockContent.tag? ∧
      (divide contents).1.filterMap ChapterItem.paragraph? = (leading contents).filterMap BlockContent.paragraph? := by
  induction contents with
  | nil => exact ⟨rfl,rfl⟩
  | cons content rest ih =>
    obtain ⟨tags,paragraphs⟩ := ih
    cases content with
    | heading heading => exact ⟨rfl,rfl⟩
    | tag tag => exact ⟨congrArg (tag :: ·) tags,paragraphs⟩
    | paragraph p => exact ⟨tags,congrArg (p :: ·) paragraphs⟩

theorem divide_gather (heading : Heading) (rest : List BlockContent) :
    (divide rest).1.foldl ChapterItem.addTo (.ofHeading heading) = .gather heading (leading rest) := by
  obtain ⟨tags,paragraphs⟩ := divide_leading rest
  have isHeading := ChapterItem.addTo_heading (divide rest).1 (.ofHeading heading)
  have isTags := ChapterItem.addTo_tags (divide rest).1 (.ofHeading heading)
  have isParagraphs := addTo_paragraphs (divide rest).1 (.ofHeading heading)
  rw [tags] at isHeading isTags
  rw [paragraphs] at isParagraphs
  calc
    _ = Chapter.mk _ _ _ := rfl
    _ = .gather heading (leading rest) := by rw [isHeading,isTags,isParagraphs]; rfl

-- A heading opens the chapter with its number, which takes what stands before the next one.
theorem divide_heading (before : List BlockContent) (heading : Heading) (rest : List BlockContent) :
    (divide (before ++ .heading heading :: rest)).2[(before.filterMap BlockContent.heading?).length]? =
      some (.gather heading (leading rest)) := by
  induction before with
  | nil => exact congrArg some (divide_gather heading rest)
  | cons content before ih =>
    cases content with
    | heading other => exact ih
    | tag tag => exact ih
    | paragraph p => exact ih

theorem divide_headings (contents : List BlockContent) :
    List.Forall₂ (fun heading chapter => ∃ rest, chapter = Chapter.gather heading rest)
      (contents.filterMap BlockContent.heading?) (divide contents).2 := by
  induction contents with
  | nil => exact .nil
  | cons content rest ih =>
    cases content with
    | heading heading => exact .cons ⟨_,divide_gather heading rest⟩ ih
    | tag tag => exact ih
    | paragraph p => exact ih

theorem divide_paragraphs (contents : List BlockContent) :
    (divide contents).1.filterMap ChapterItem.paragraph? ++ (divide contents).2.flatMap Chapter.paragraphs =
      contents.filterMap BlockContent.paragraph? := by
  induction contents with
  | nil => rfl
  | cons content rest ih =>
    cases content with
    | heading heading =>
      show (Chapter.paragraphs _ ++ (divide rest).2.flatMap Chapter.paragraphs : List Paragraph) = rest.filterMap _
      rw [addTo_paragraphs]
      exact ih
    | tag tag => exact ih
    | paragraph p => exact congrArg (p :: ·) ih

def orphanWarning (name : Text) (tag : ChapterTag) : Entry :=
  ⟨.warning,.dossiers,"chapter tag `@" ++ tag.key.name ++ "` outside any chapter in " ++ inTicks name ++ ": ignored"⟩

theorem warnOfTags_eq (name : Text) (items : List ChapterItem) :
    warnOfTags name items = ⟨(items.filterMap ChapterItem.tag?).map (orphanWarning name),.ok ()⟩ := by
  induction items with
  | nil => rfl
  | cons item items ih =>
    cases item with
    | tag tag =>
      rw [warnOfTags,Logged.bind_ok (Logged.outcome_warn _ _),ih]
      rfl
    | paragraph p => exact ih

-- Folding always succeeds. No paragraph and no heading is lost, doubled or moved; each heading takes the tags and paragraphs
-- up to the next one, and the last identifier among these tags; before the first heading paragraphs are the preamble and each
-- tag is a warning.
theorem contents_folded (name : Text) (contents : List BlockContent) :
    ∃ d, (ofContents name contents).outcome = .ok d ∧
      d.preamble ++ d.chapters.flatMap Chapter.paragraphs = contents.filterMap BlockContent.paragraph? ∧
      List.Forall₂ (fun heading chapter => chapter.heading =
          { heading with identifier := (ChapterTag.lastIdentifier? chapter.tags).or heading.identifier } ∧
          (heading.identifier = none → chapter.heading.identifier = ChapterTag.lastIdentifier? chapter.tags))
        (contents.filterMap BlockContent.heading?) d.chapters ∧
      (∀ before heading rest, contents = before ++ .heading heading :: rest →
        d.chapters[(before.filterMap BlockContent.heading?).length]? = some (.gather heading (leading rest))) ∧
      d.preamble = (leading contents).filterMap BlockContent.paragraph? ∧
      (ofContents name contents).log = ((leading contents).filterMap BlockContent.tag?).map (orphanWarning name) := by
  have folded : ofContents name contents =
      ⟨((leading contents).filterMap BlockContent.tag?).map (orphanWarning name),.ok ⟨name,
        (divide contents).1.filterMap ChapterItem.paragraph?,(divide contents).2,none⟩⟩ := by
    rw [← (divide_leading contents).1,ofContents]
    dsimp only
    rw [Logged.bind_ok (congrArg Logged.outcome (warnOfTags_eq name _)),warnOfTags_eq]
    exact congrArg (Logged.mk · _) (List.append_nil _)
  refine ⟨_,congrArg Logged.outcome folded,divide_paragraphs contents,?headings,?sections,(divide_leading contents).2,
    congrArg Logged.log folded⟩
  case headings =>
    refine (divide_headings contents).imp ?_
    rintro heading chapter ⟨rest,rfl⟩
    refine ⟨rfl,fun fresh => ?_⟩
    rw [Chapter.gather,fresh,Option.or_none]
  case sections =>
    rintro before heading rest rfl
    exact divide_heading before heading rest

end Document
end LightMarkup
