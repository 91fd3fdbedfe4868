import LightMarkup.Draft
import LightMarkup.GreekLetters
import LightMarkup.Html
import LightMarkup.Settings

/-!
Rewriting: what a construct puts in the place of a text that it matches. Most constructs build their output from
pieces; Greek letters, references and citations look up what they write.
-/

namespace LightMarkup

inductive GroupKey where
  | number (n : Nat)
  | name (t : Text)
  deriving DecidableEq, Repr

/-- A template is text with groups by their numbers or names. -/
inductive TemplateItem where
  | text (t : Text)
  | group (key : Text)
  deriving DecidableEq, Repr

abbrev Template := List TemplateItem

/-- Where an element takes its embedded style from: nowhere, one group, or the groups `color`, `background` and
`font`. -/
inductive StyleSource where
  | none
  | group (number : Nat)
  | abridged
  deriving DecidableEq, Repr

inductive Piece where
  /-- Fixed text from a template. Groups in `links` are written as link targets, groups in `identifiers` as
  anchors; the replacements are made at the end. -/
  | template (items : Template) (links identifiers : List GroupKey) (replacements : List (Pattern × Text))
  /-- The live text of a group. -/
  | capture (group : GroupKey) (escape : Bool)
  /-- The opening tag of an element with an embedded style; with an identifier it is in the class `identifier`
  too. -/
  | opening (tag : String) (baseClass : Text) (style : StyleSource) (identifier : Option Nat) (withNuid : Bool)
  /-- The opening tags of a code block in the language of group 1. -/
  | codeOpening
  /-- The whole match, unchanged. -/
  | whole
  deriving DecidableEq, Repr

inductive Rewrite where
  | pieces (pieces : List Piece)
  | greekLetters
  | reference
  | citation
  deriving DecidableEq, Repr

/-- A construct that rewrites text. -/
structure Construct where
  name : String
  pattern : Pattern
  excluded : Exclusion
  rewrite : Rewrite
  deriving DecidableEq, Repr

/-- What a rewrite works on: the construct, the matched text, the match in it, and what is known around it. -/
structure Rewriting where
  construct : Construct
  settings : CompileSettings
  context : Context
  draft : Draft
  found : Match

namespace Template

def groupPattern : Pattern :=
  Pattern.literal "\\g<" ++ Pattern.captured 1 (Pattern.plus (.char .word)) ++ Pattern.literal ">"

def itemsBetween (position : Nat) (t : Text) : List Match → Template
  | [] => [.text t]
  | m :: found =>
    .text (t.take (m.start.position - position)) :: .group (m.group 1)
      :: itemsBetween m.stop.position (t.drop (m.stop.position - position)) found

/-- Read a template in which a backslash, `g` and a key in angle brackets stand for a group. -/
def ofText (t : Text) : Template :=
  itemsBetween 0 t (groupPattern.occurrences t)

end Template

namespace Piece

def text (t : Text) : Piece :=
  .template [.text t] [] [] []

end Piece

namespace GroupKey

def ofText (key : Text) : Except Failure GroupKey :=
  if !key.isEmpty && key.all Text.isDigit then
    match Text.decimalNumber? key with
    | some n => .ok (.number n)
    | none => .error (.fault .notNumber)
  else .ok (.name key)

/-- The number of a group that the pattern has; group 0 is the whole match. -/
def resolve (pattern : Pattern) : GroupKey → Except Failure Nat
  | .number n => if n = 0 || pattern.hasGroup n then .ok n else .error (.fault .noSuchGroup)
  | .name t =>
    match pattern.groupNumber? t with
    | some n => .ok n
    | none => .error (.fault .noSuchGroup)

end GroupKey

namespace Rewriting

def groupText (r : Rewriting) (key : GroupKey) : Except Failure Text := do
  let n ← key.resolve r.construct.pattern
  pure (r.found.group n)

/-- A group of a template. The key `nuid` stands for the NUID attribute unless the pattern has such a group. -/
def expandGroup (r : Rewriting) (links identifiers : List GroupKey) (key : Text) : Except Failure Text :=
  if key = "nuid" && (r.construct.pattern.groupNumber? key).isNone then .ok (Html.nuidAttribute r.draft.nuid)
  else do
    let key ← GroupKey.ofText key
    let text ← r.groupText key
    if links.contains key then
      let link ← Link.ofText text r.context.document
      pure (Html.escapeAttribute link.build)
    else if identifiers.contains key then
      let anchor ← Anchor.inDocument text r.context.document
      pure (Html.escapeAttribute anchor)
    else pure text

def expand (r : Rewriting) (links identifiers : List GroupKey) : Template → Except Failure Text
  | [] => .ok []
  | .text t :: items => do
    let rest ← r.expand links identifiers items
    pure (t ++ rest)
  | .group key :: items => do
    let text ← r.expandGroup links identifiers key
    let rest ← r.expand links identifiers items
    pure (text ++ rest)

/-- The declarations of an abridged style, each only if its group holds something. -/
def abridgedStyle (r : Rewriting) : Text :=
  let declaration (property : Text) (group : Text) : List Text :=
    match r.construct.pattern.groupNumber? group with
    | some n => if (r.found.group n).isEmpty then [] else [property ++ ": " ++ r.found.group n]
    | none => []
  Text.join "; "
    (declaration "color" "color" ++ declaration "background-color" "background" ++ declaration "font-family" "font")

def styleText (r : Rewriting) : StyleSource → Option Text
  | .none => none
  | .group n => r.found.group? n
  | .abridged => some r.abridgedStyle

def openingTag (tag : String) (baseClass : Text) (style : Option Text) (identifier nuid : Option Text) : Text :=
  let classes : Text := if identifier.isSome then "identifier " ++ baseClass else baseClass
  "<" ++ Text.ofString tag ++ Html.styleAttributes classes style ++ Html.idAttribute identifier
    ++ Html.nuidAttribute nuid ++ ">"

/-- A piece of a captured text: live parts also exclude what the construct excludes. -/
def captured (r : Rewriting) (escape : Bool) : Part → Part
  | .fixed content => .fixed content
  | .live content excluded =>
    let escapes := escape && r.draft.isVisible (.live content excluded)
    .live (if escapes then Html.escape content else content) (excluded.combine r.construct.excluded)

def build (r : Rewriting) : Piece → Except Failure (List Part)
  | .template items links identifiers replacements => do
    let text ← r.expand links identifiers items
    pure [.fixed (replacements.foldl (fun text (pattern, replacement) => pattern.replace replacement text) text)]
  | .capture group escape => do
    let n ← group.resolve r.construct.pattern
    match r.found.groupSpan? n with
    | none => pure []
    | some (start, stop) =>
      let parts ← r.draft.slice start stop .both
      pure (parts.map (r.captured escape))
  | .opening tag baseClass style identifier withNuid => do
    let anchor ← Anchor.inDocument? r.context.document (identifier.bind r.found.group?)
    let nuid := if withNuid then r.draft.nuid else none
    pure [.fixed (openingTag tag baseClass (r.styleText style) anchor nuid)]
  | .codeOpening =>
    let language : Text := if (r.found.group 1).isEmpty then "plaintext" else r.found.group 1
    pure [.fixed ("<pre" ++ Html.nuidAttribute r.draft.nuid ++ "><code class=\"language-"
      ++ Html.escapeAttribute language ++ " code-block\">")]
  | .whole => pure r.draft.parts

def buildAll (r : Rewriting) : List Piece → Except Failure (List Part)
  | [] => .ok []
  | piece :: pieces => do
    let parts ← r.build piece
    let rest ← r.buildAll pieces
    pure (parts ++ rest)

def greekLetters (r : Rewriting) : Logged (List Part) := do
  let (latex, unknown) := GreekLetters.decompose (r.found.group 1)
  if !unknown.isEmpty then
    if r.settings.strictGreekLetters then
      Logged.fail (.unknownGreekLetters unknown r.found.text)
    else
      Logged.warn .rewriting (unknownGreekLettersText unknown r.found.text)
  pure [.fixed ("<span class=\"greek\">$" ++ latex ++ "$</span>")]

def leftAsItIs (r : Rewriting) (what key : Text) : Text :=
  what ++ " " ++ inTicks key ++ " not found: " ++ inTicks r.found.text ++ " is left as it is"

def reference (r : Rewriting) : Logged (List Part) :=
  let key := r.found.group 1
  match r.settings.reference? key with
  | some value => pure [.fixed value]
  | none => do
    if r.settings.strictReferences then
      Logged.fail (.unresolvedReference key)
    else
      Logged.warn .rewriting (r.leftAsItIs "reference" key)
    pure r.draft.parts

def citation (r : Rewriting) : Logged (List Part) :=
  let key := r.found.group 1
  match r.settings.bibliography.bind (·.numberOf? key) with
  | some number =>
    let href := Html.escapeAttribute (Bibliography.linkTo key).build
    pure [.fixed ("<a class=\"cite\" href=\"" ++ href ++ "\">" ++ Text.ofNat number ++ "</a>")]
  | none => do
    if r.settings.strictCitations then
      Logged.fail (.unresolvedCitation key)
    else
      Logged.warn .rewriting (r.leftAsItIs "bibliography record" key)
    pure r.draft.parts

def parts (r : Rewriting) : Rewrite → Logged (List Part)
  | .pieces pieces => Logged.ofExcept (r.buildAll pieces)
  | .greekLetters => r.greekLetters
  | .reference => r.reference
  | .citation => r.citation

end Rewriting

namespace Construct

/-- Rewrite a text that the construct's pattern matches: the first match in what is visible of it. -/
def rewriteMatch (construct : Construct) (settings : CompileSettings) (context : Context) (d : Draft) :
    Logged (List Part) :=
  match construct.pattern.search? d.visibleContent with
  | none => .fail (.unmatchedRule construct.name d.visibleContent)
  | some found => Rewriting.parts ⟨construct, settings, context, d, found⟩ construct.rewrite

/-- Rewrite every match in what the construct sees of a draft. -/
def apply (construct : Construct) (settings : CompileSettings) (context : Context) (d : Draft) : Logged Draft :=
  d.applyAt construct.name (Draft.spansOf construct.name construct.pattern d)
    (construct.rewriteMatch settings context)

/-- Apply constructs in order, leaving out those that the settings exclude. -/
def applyEach (settings : CompileSettings) (context : Context) : List Construct → Draft → Logged Draft
  | [], d => pure d
  | construct :: rest, d => do
    let d ← if settings.excluded.contains construct.name then pure d else construct.apply settings context d
    applyEach settings context rest d

end Construct

namespace Draft

/-- Apply the inline constructs in order of priority. -/
def compile (constructs : List Construct) (settings : CompileSettings) (context : Context) (d : Draft) : Logged Draft :=
  if settings.excluded = .everything then pure d
  else Construct.applyEach settings context constructs d

end Draft

end LightMarkup
