import LightMarkup.Document.Compile
import LightMarkup.Settings.Values

/-!
Generated contents of a dossier: the table of contents and the bibliography.
-/

namespace LightMarkup

structure ContentsSettings where
  title : Text := "Table of contents"
  maximumLevel : Int := 6
  plain : Bool := false
  included : Bool := true
  deriving DecidableEq, Repr

structure ContentsEntry where
  heading : Heading
  documentName : Text
  deriving DecidableEq, Repr

structure TableOfContents where
  settings : ContentsSettings
  entries : List ContentsEntry
  deriving DecidableEq, Repr

namespace TableOfContents

def ofDocuments (documents : List Document) (settings : ContentsSettings) : TableOfContents :=
  ⟨settings, documents.flatMap fun d => d.headings.map fun heading => ⟨heading, d.name⟩⟩

/-- The entries that are not too deep. -/
def included (toc : TableOfContents) : List ContentsEntry :=
  toc.entries.filter fun entry => entry.heading.level ≤ toc.settings.maximumLevel

/-- The level of the shallowest entry that is included. -/
def shallowest (toc : TableOfContents) : Int :=
  ((toc.included.map (·.heading.level)).min?).getD 1

def indentation : Text := "<span class=\"toc-item-indentation\"></span>"

def entryParts (compiler : Compiler) (toc : TableOfContents) (entry : ContentsEntry) : Logged (List Part) := do
  let anchor := (entry.heading.anchor? (some entry.documentName)).getD []
  let indented : List Part :=
    if toc.settings.plain then []
    else [.fixed (Text.repeated (entry.heading.level - toc.shallowest).toNat indentation)]
  let title ← (compiler.inDocument entry.documentName).inlineText entry.heading.title
  pure ([.fixed "<li class=\"toc-item\">"] ++ indented
    ++ [.fixed "<span class=\"toc-item-bullet\"></span><span class=\"toc-item-content\">",
      .fixed ("<a" ++ Html.attr "href" ('#' :: Html.escapeAttribute anchor) ++ " class=\"link\">")]
    ++ title.parts ++ [.fixed "</a></span></li>"])

def entriesParts (compiler : Compiler) (toc : TableOfContents) : List ContentsEntry → Logged (List Part)
  | [] => pure []
  | entry :: rest => do
    let parts ← toc.entryParts compiler entry
    let others ← toc.entriesParts compiler rest
    pure (parts ++ others)

def compile (compiler : Compiler) (toc : TableOfContents) : Logged Draft := do
  let title ← compiler.inlineText toc.settings.title
  let entries ← toc.entriesParts compiler toc.included
  .info .contents ("compiled table of contents (" ++ Text.ofNat toc.included.length ++ " entries, "
    ++ Text.ofNat (toc.entries.length - toc.included.length) ++ " skipped)")
  pure ⟨[.fixed "<section class=\"toc\"><div class=\"toc-title\">"] ++ title.parts
    ++ [.fixed "</div><ul class=\"toc-body\">"] ++ entries ++ [.fixed "</ul></section>"], none, none⟩

end TableOfContents

namespace Bibliography

/-- Text where a field should hold one. -/
def textOf : Value → Except Failure Text
  | .text t => .ok t
  | _ => .error (.fault .notText)

def field (name content : Text) : Text :=
  "<div class=\"bibliography-item-" ++ name ++ "\">" ++ content ++ "</div>"

def authorsField : Option (List Text) → Text
  | none => []
  | some [] => []
  | some authors => field "authors" (Html.escape (Text.join ", " authors))

def yearField : Value → Except Failure Text
  | .null => .ok []
  | year => year.shownOrFault.map (field "year")

def urlField : Value → Except Failure Text
  | .null => .ok []
  | value => do
    let url := Html.escapeAttribute (← textOf value)
    pure (field "url" ("<a" ++ Html.attr "href" url ++ " class=\"link\">" ++ url ++ "</a>"))

def descriptionField : Value → Except Failure Text
  | .null => .ok []
  | value => do
    let description ← textOf value
    pure (field "description" (Html.escape description))

def itemText (key : Text) (record : BibliographyRecord) : Except Failure Text := do
  let year ← yearField record.year
  let url ← urlField record.url
  let description ← descriptionField record.description
  pure ("<li class=\"bibliography-item\"" ++ Html.attr "id" (Html.escapeAttribute (linkTo key).withoutSharp) ++ ">"
    ++ field "title" (Html.escape record.title) ++ authorsField record.authors ++ year ++ url
    ++ description ++ "</li>")

def itemParts : List (Text × BibliographyRecord) → Except Failure (List Part)
  | [] => .ok []
  | (key, record) :: rest => do
    let item ← itemText key record
    let items ← itemParts rest
    pure (.fixed item :: items)

/-- One item for each record, in order of the keys. -/
def compile (compiler : Compiler) (b : Bibliography) : Logged Draft := do
  let title ← compiler.inlineText b.title
  let items ← Logged.ofExcept (itemParts b.records)
  .info .contents ("compiled bibliography (" ++ Text.ofNat b.records.length ++ " records)")
  pure ⟨[.fixed "<section class=\"bibliography\"><div class=\"bibliography-title\">"] ++ title.parts
    ++ [.fixed "</div><ul class=\"bibliography-body\">"] ++ items ++ [.fixed "</ul></section>"], none, none⟩

end Bibliography

end LightMarkup
