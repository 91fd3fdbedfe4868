import LightMarkup.Document.Basic
import LightMarkup.FanOut
import LightMarkup.Paragraph.Compile

/-!
Compiling headings, chapters and documents.
-/

namespace LightMarkup

namespace Compiler

def fanOut {α : Type} (compiler : Compiler) (units : List (Logged α)) : Logged (List α) :=
  FanOut.run compiler.settings.parallel compiler.settings.collectErrors units

def paragraph (compiler : Compiler) (p : Paragraph) : Logged Draft := do
  .debug .compilation ("compiling " ++ inTicks (Text.ofString p.construct) ++ " paragraph "
    ++ p.nuid.getD "None")
  p.compile compiler

def paragraphs (compiler : Compiler) (ps : List Paragraph) : Logged (List Part) := do
  let drafts ← compiler.fanOut (ps.map compiler.paragraph)
  pure (drafts.flatMap Draft.parts)

def headingOpening (level : Int) (anchor nuid : Option Text) : Text :=
  let idAttribute : Text := match anchor with
    | none => []
    | some anchor => Html.attr "id" anchor
  "<h" ++ Text.ofInt level ++ " class=\"heading-" ++ Text.ofInt level ++ "\"" ++ idAttribute ++ Html.nuidAttribute nuid
    ++ ">"

def heading (compiler : Compiler) (h : Heading) : Logged Draft := do
  let title ← compiler.inlineText h.title
  pure ⟨[.fixed (headingOpening h.level (h.anchor? compiler.context.document) h.nuid)] ++ title.parts
    ++ [.fixed ("</h" ++ Text.ofInt h.level ++ ">")], h.nuid, none⟩

/-- The style of a chapter: the values of its style tags, and the words of its class tags behind dots. -/
def chapterStyle (chapter : Chapter) : Text :=
  let classes := (chapter.valuesOf .styleClass).flatMap fun value => (Text.words value).map fun word => '.' :: word
  Text.join "; " (chapter.valuesOf .style ++ classes)

def chapter (compiler : Compiler) (c : Chapter) : Logged Draft := do
  let heading ← compiler.heading c.heading
  let body ← compiler.paragraphs c.paragraphs
  pure ⟨[.fixed ("<section" ++ Html.styleAttributes "chapter" (some (chapterStyle c)) ++ ">")] ++ heading.parts ++ body
    ++ [.fixed "</section>"], c.heading.nuid, none⟩

def documentOpening (name : Text) : Text :=
  "<section class=\"document\"" ++ Html.attr "id" (Html.escapeAttribute (Anchor.normalise name)) ++ ">"

/-- Compile a document whose nodes have their NUIDs. -/
def numberedDocument (compiler : Compiler) (d : Document) : Logged Draft := do
  let preamble ← compiler.paragraphs d.preamble
  let chapters ← compiler.fanOut (d.chapters.map compiler.chapter)
  pure ⟨[.fixed (documentOpening d.name)] ++ preamble ++ chapters.flatMap Draft.parts ++ [.fixed "</section>"], none,
    none⟩

def document (compiler : Compiler) (d : Document) : Logged Draft := do
  .debug .compilation ("compiling document " ++ inTicks d.name)
  (compiler.inDocument d.name).numberedDocument d.withNuids

end Compiler

end LightMarkup
