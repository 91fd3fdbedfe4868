import LightMarkup.Loading

/-!
Documents: a preamble and chapters, folded from blocks in order, and the NUIDs of their nodes.
-/

namespace LightMarkup

structure Chapter where
  heading : Heading
  tags : List ChapterTag
  paragraphs : List Paragraph
  deriving Repr

/-- A document keeps its compiled text once it has been compiled. -/
structure Document where
  name : Text
  preamble : List Paragraph
  chapters : List Chapter
  compiled : Option Draft := none
  deriving Repr

namespace Chapter

def ofHeading (heading : Heading) : Chapter :=
  ⟨heading, [], []⟩

/-- Add a tag; an identifier that is not empty becomes the heading's. -/
def addTag (chapter : Chapter) (tag : ChapterTag) : Chapter :=
  let tags := chapter.tags ++ [tag]
  match tag.key, tag.value with
  | .id, some (c :: rest) =>
    { chapter with tags := tags, heading := { chapter.heading with identifier := some (c :: rest) } }
  | _, _ => { chapter with tags := tags }

def addParagraph (chapter : Chapter) (paragraph : Paragraph) : Chapter :=
  { chapter with paragraphs := chapter.paragraphs ++ [paragraph] }

/-- The values of the tags under a key. -/
def valuesOf (chapter : Chapter) (key : TagKey) : List Text :=
  (chapter.tags.filter (·.key == key)).filterMap (·.value)

end Chapter

/-- What belongs to the last heading before it. -/
inductive ChapterItem where
  | tag (tag : ChapterTag)
  | paragraph (paragraph : Paragraph)
  deriving Repr

namespace ChapterItem

def paragraph? : ChapterItem → Option Paragraph
  | .tag _ => none
  | .paragraph held => some held

def addTo (chapter : Chapter) : ChapterItem → Chapter
  | .tag added => chapter.addTag added
  | .paragraph added => chapter.addParagraph added

end ChapterItem

namespace Document

/-- The ending of a file that holds a document. -/
def extension : Text := ".nmd"

def nameOfPath (p : Path) : Text :=
  Text.dropEnding extension p.name

/-- The items before the first heading, and each heading as a chapter with the items after it. -/
def divide : List BlockContent → List ChapterItem × List Chapter
  | [] => ([], [])
  | .heading heading :: rest =>
    let (items, chapters) := divide rest
    ([], items.foldl ChapterItem.addTo (.ofHeading heading) :: chapters)
  | .tag tag :: rest =>
    let (items, chapters) := divide rest
    (.tag tag :: items, chapters)
  | .paragraph paragraph :: rest =>
    let (items, chapters) := divide rest
    (.paragraph paragraph :: items, chapters)

/-- A tag before the first heading is dropped with a warning. -/
def warnOfTags (name : Text) : List ChapterItem → Logged Unit
  | [] => pure ()
  | .tag tag :: rest => do
    .warn .dossiers ("chapter tag `@" ++ tag.key.name ++ "` outside any chapter in " ++ inTicks name ++ ": ignored")
    warnOfTags name rest
  | .paragraph _ :: rest => warnOfTags name rest

def ofContents (name : Text) (contents : List BlockContent) : Logged Document := do
  let (items, chapters) := divide contents
  warnOfTags name items
  pure { name := name, preamble := items.filterMap ChapterItem.paragraph?, chapters := chapters }

def ofText (catalogue : Catalogue) (settings : LoadSettings) (name t : Text) : Logged Document := do
  .debug .loading ("loading document " ++ inTicks name)
  let blocks ← Loader.load catalogue settings t
  ofContents name (blocks.map PlacedBlock.content)

def headings (d : Document) : List Heading :=
  d.chapters.map Chapter.heading

/-- The raw texts of all paragraphs, nested ones included, in order. -/
def paragraphContents (d : Document) : List Text :=
  Paragraph.contentsOfList d.preamble ++ d.chapters.flatMap fun chapter => Paragraph.contentsOfList chapter.paragraphs

/-- The NUID of a node after nodes with the contents `seen`. -/
def nuidAfter (name : Text) (seen : List Text) (content : Text) : Text :=
  Nuid.build name content (seen.count content)

mutual

def numberParagraph (name : Text) (seen : List Text) : Paragraph → Paragraph
  | .leaf raw construct _ body => .leaf raw construct (some (nuidAfter name seen raw)) body
  | .container raw construct _ kind type nested =>
    .container raw construct (some (nuidAfter name seen raw)) kind type (numberParagraphs name (seen ++ [raw]) nested)

def numberParagraphs (name : Text) (seen : List Text) : List Paragraph → List Paragraph
  | [] => []
  | paragraph :: rest =>
    numberParagraph name seen paragraph :: numberParagraphs name (seen ++ paragraph.contents) rest

end

def numberChapters (name : Text) (seen : List Text) : List Chapter → List Chapter
  | [] => []
  | chapter :: rest =>
    { chapter with paragraphs := numberParagraphs name seen chapter.paragraphs }
      :: numberChapters name (seen ++ Paragraph.contentsOfList chapter.paragraphs) rest

def numberHeadings (name : Text) (seen : List Text) : List Chapter → List Chapter
  | [] => []
  | chapter :: rest =>
    { chapter with
      heading := { chapter.heading with nuid := some (nuidAfter name seen chapter.heading.title) } }
      :: numberHeadings name (seen ++ [chapter.heading.title]) rest

/-- Give every paragraph and then every heading its NUID. -/
def withNuids (d : Document) : Document :=
  { d with
    preamble := numberParagraphs d.name [] d.preamble
    chapters := numberHeadings d.name d.paragraphContents
      (numberChapters d.name (Paragraph.contentsOfList d.preamble) d.chapters) }

def describe (d : Document) : Text :=
  "Document(" ++ Text.quoted d.name ++ ", preamble=" ++ Text.ofNat d.preamble.length ++ ", chapters="
    ++ Text.ofNat d.chapters.length ++ ")"

end Document

end LightMarkup
