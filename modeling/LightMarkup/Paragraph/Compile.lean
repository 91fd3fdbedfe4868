import LightMarkup.ImageSource
import LightMarkup.Paragraph.Basic
import LightMarkup.Paragraph.Bullets
import LightMarkup.Paragraph.Table

/-!
Compiling paragraphs to HTML: a skeleton of fixed parts around live text, and the inline constructs applied to it.
-/

namespace LightMarkup

/-- What every unit of a compilation reads and none changes. -/
structure Compiler where
  constructs : List Construct
  settings : CompileSettings
  context : Context
  resources : Resources

namespace Compiler

def inDocument (compiler : Compiler) (name : Text) : Compiler :=
  { compiler with context := { compiler.context with document := some name } }

def inline (compiler : Compiler) (d : Draft) : Logged Draft :=
  d.compile compiler.constructs compiler.settings compiler.context

/-- Compile text that stands alone. -/
def inlineText (compiler : Compiler) (t : Text) : Logged Draft :=
  compiler.inline (.ofLive (Html.escape t) .nothing none)

end Compiler

namespace Paragraph

def newlines : Pattern :=
  Pattern.gaps ++ Pattern.lineBreak ++ Pattern.gaps

/-- One space for each line break with the blanks around it. -/
def foldNewlines (t : Text) : Text :=
  newlines.replace " " t

def foldPart : Part → Part
  | .fixed content => .fixed content
  | .live content excluded => .live (foldNewlines content) excluded

/-- Fold the line breaks of live text; the scope is forgotten. -/
def foldDraft (d : Draft) : Draft :=
  ⟨d.parts.map foldPart, d.nuid, none⟩

def live (t : Text) : Part :=
  .live (Html.escape t) .nothing

def commonParts (raw : Text) (nuid : Option Text) : List Part := [
  .fixed ("<p class=\"paragraph\"" ++ Html.nuidAttribute nuid ++ ">"), live (Text.trim raw), .fixed "</p>"]

def indentation : Text := "<span class=\"list-item-indentation\"></span>"

def itemParts (bullets : List BulletRecord) (item : ListItem) : List Part := [
  .fixed ("<li class=\"list-item\">" ++ Text.repeated item.level indentation ++ "<span class=\"list-item-bullet\">"
    ++ BulletRecord.shown bullets item.bullet item.level ++ "</span><span class=\"list-item-content\">"),
  live item.content,
  .fixed "</span></li>"]

def listParts (bullets : List BulletRecord) (nuid : Option Text) (items : List ListItem) : List Part :=
  [.fixed ("<ul class=\"list\"" ++ Html.nuidAttribute nuid ++ ">")] ++ items.flatMap (itemParts bullets)
    ++ [.fixed "</ul>"]

def cellParts (tag : Text) (alignment : Option Alignment) (cell : Text) : List Part :=
  if Text.isAllBlank cell then
    [.fixed ("<" ++ tag ++ " class=\"table-cell table-empty-cell\"></" ++ tag ++ ">")]
  else
    let aligned : Text := match alignment with
      | none => []
      | some alignment => " table-" ++ alignment.name ++ "-cell"
    [.fixed ("<" ++ tag ++ " class=\"table-cell" ++ aligned ++ "\">"), live (Text.trim cell),
      .fixed ("</" ++ tag ++ ">")]

/-- Cells with the alignments of their columns; columns past the last alignment have none. -/
def cellsParts (tag : Text) : List (Option Alignment) → Row → List Part
  | _, [] => []
  | [], cell :: cells => cellParts tag none cell ++ cellsParts tag [] cells
  | alignment :: alignments, cell :: cells => cellParts tag alignment cell ++ cellsParts tag alignments cells

def rowParts (tag rowClass : Text) (alignments : List (Option Alignment)) (row : Row) : List Part :=
  [.fixed ("<tr class=\"" ++ rowClass ++ "\">")] ++ cellsParts tag alignments row ++ [.fixed "</tr>"]

def captionParts : Option Text → List Part
  | none => []
  | some caption => [.fixed "<caption class=\"table-caption\">", live caption, .fixed "</caption>"]

def headerParts (alignments : List (Option Alignment)) : Option Row → List Part
  | none => []
  | some row =>
    [.fixed "<thead class=\"table-header\">"] ++ rowParts "th" "table-header-row" alignments row ++ [.fixed "</thead>"]

def footerParts (alignments : List (Option Alignment)) : Option Row → List Part
  | none => []
  | some row =>
    [.fixed "<tfoot class=\"table-footer\">"] ++ rowParts "td" "table-footer-row" alignments row ++ [.fixed "</tfoot>"]

def tableParts (table : Table) (anchor nuid : Option Text) : List Part :=
  let style := table.metadata.bind (·.style)
  [.fixed ("<table" ++ Html.styleAttributes "table" style ++ Html.idAttribute anchor ++ Html.nuidAttribute nuid ++ ">")]
    ++ captionParts (table.metadata.bind (·.caption))
    ++ headerParts table.alignments table.header
    ++ [.fixed "<tbody class=\"table-body\">"]
    ++ table.body.flatMap (rowParts "td" "table-body-row" table.alignments)
    ++ [.fixed "</tbody>"]
    ++ footerParts table.alignments table.footer
    ++ [.fixed "</table>"]

/-- An image's anchor: by its identifier, or by its caption where there is a document to hold it. -/
def imageAnchor (context : Context) (image : Image) : Except Failure (Option Text) :=
  match image.identifier with
  | some identifier => (Anchor.inDocument identifier context.document).map some
  | none =>
    match image.caption, context.document with
    | some caption, some name => .ok (if caption.isEmpty then none else some (Anchor.build name caption))
    | _, _ => .ok none

def imageParts (compiler : Compiler) (nuid : Option Text) (image : Image) : Logged (List Part) := do
  let anchor ← Logged.ofExcept (imageAnchor compiler.context image)
  let source ← ImageSource.resolve compiler.settings compiler.resources image.source
  let caption := image.caption.getD []
  let imageClass : Text := if image.abridged then "image abridged-image" else "image"
  let alt : Text := if caption.isEmpty then [] else Html.attr "alt" (Html.escapeAttribute caption)
  let opening :=
    "<figure" ++ Html.styleAttributes "figure" image.style ++ Html.idAttribute anchor ++ Html.nuidAttribute nuid
      ++ "><img" ++ Html.attr "src" (Html.escapeAttribute source) ++ alt ++ Html.attr "class" imageClass ++ " />"
  let captionParts : List Part :=
    if caption.isEmpty then []
    else [.fixed "<figcaption class=\"image-caption\">", live caption, .fixed "</figcaption>"]
  pure ([.fixed opening] ++ captionParts ++ [.fixed "</figure>"])

def standardAlignSelf : Text := "center"

def rowImageParts (compiler : Compiler) (image : Image) : Logged (List Part) := do
  let given := image.alignSelf.getD []
  let alignSelf := Html.escapeAttribute (if given.isEmpty then standardAlignSelf else given)
  let parts ← imageParts compiler none image
  pure ([.fixed ("<div class=\"image-container\" style=\"align-self: " ++ alignSelf ++ ";\">")] ++ parts
    ++ [.fixed "</div>"])

def rowImagesParts (compiler : Compiler) : List Image → Logged (List Part)
  | [] => pure []
  | image :: images => do
    let parts ← rowImageParts compiler image
    let rest ← rowImagesParts compiler images
    pure (parts ++ rest)

def imageRowParts (compiler : Compiler) (images : List Image) (alignment : Text) (nuid : Option Text) :
    Logged (List Part) := do
  let parts ← rowImagesParts compiler images
  pure ([.fixed ("<div class=\"images-container\" style=\"display: flex; justify-content: "
      ++ Html.escapeAttribute alignment ++ ";\"" ++ Html.nuidAttribute nuid ++ ">")] ++ parts ++ [.fixed "</div>"])

def compileLeaf (compiler : Compiler) (raw : Text) (nuid : Option Text) : Leaf → Logged Draft
  | .common => do
    let d ← compiler.inline ⟨commonParts raw nuid, nuid, none⟩
    pure (foldDraft d)
  | .replacement construct => do
    let parts ← construct.rewriteMatch compiler.settings compiler.context
      ⟨[.live raw .nothing], nuid, some construct.name⟩
    compiler.inline ⟨parts, nuid, none⟩
  | .list => do
    let items ← ListItem.ofText compiler.settings.strictLists raw
    compiler.inline ⟨listParts compiler.settings.bullets nuid items, nuid, none⟩
  | .table => do
    let table := Table.ofText raw
    let anchor ← Logged.ofExcept
      (Anchor.inDocument? compiler.context.document (table.metadata.bind (·.identifier)))
    compiler.inline ⟨tableParts table anchor nuid, nuid, none⟩
  | .image image => do
    let parts ← imageParts compiler nuid image
    compiler.inline ⟨parts, nuid, none⟩
  | .imageRow images alignment => do
    let parts ← imageRowParts compiler images alignment nuid
    compiler.inline ⟨parts, nuid, none⟩

def baseClass : ContainerKind → Text
  | .quote => "focus-quote-block"
  | .focus => "focus-block"

def containerOpening (kind : ContainerKind) (type : Text) (nuid : Option Text) : Text :=
  let base := baseClass kind
  let typed := base ++ "-" ++ Anchor.normalise type
  "<div class=\"" ++ base ++ " " ++ typed ++ "\"" ++ Html.nuidAttribute nuid ++ "><div class=\"" ++ base ++ "-title "
    ++ typed ++ "-title\"></div><div class=\"" ++ base ++ "-description " ++ typed ++ "-description\">"

mutual

def compile (compiler : Compiler) : Paragraph → Logged Draft
  | .leaf raw _ nuid body => compileLeaf compiler raw nuid body
  | .container _ _ nuid kind type nested => do
    let parts ← compileNested compiler nested
    pure ⟨[.fixed (containerOpening kind type nuid)] ++ parts ++ [.fixed "</div></div>"], nuid, none⟩

def compileNested (compiler : Compiler) : List Paragraph → Logged (List Part)
  | [] => pure []
  | paragraph :: rest => do
    let d ← paragraph.compile compiler
    let parts ← compileNested compiler rest
    pure (d.parts ++ parts)

end

end Paragraph

end LightMarkup
