import LightMarkup.Catalogue
import LightMarkup.Document.Heading
import LightMarkup.Paragraph.Basic
import LightMarkup.Paragraph.Quote

/-!
Loading: cutting text into blocks. Each block construct in turn takes its matches out of what the constructs before
it have left; the last remains are searched for headings, and what lies between those goes to the fallback.
Containers load their bodies in the same way, one level deeper.

Offsets of blocks are offsets in the text that is loaded as a whole.
-/

namespace LightMarkup

inductive BlockContent where
  | heading (heading : Heading)
  | tag (tag : ChapterTag)
  | paragraph (paragraph : Paragraph)
  deriving Repr

/-- A block with the span that it was loaded from. -/
structure PlacedBlock where
  start : Nat
  stop : Nat
  content : BlockContent
  deriving Repr

/-- What a container's body becomes. -/
abbrev Nested := Text → Logged (List Paragraph)

/-- The level of the heading before, if there is one. -/
abbrev LastLevel := Option Int

namespace Cursor

def atPosition (t : Text) (position : Nat) : Cursor :=
  ⟨(t.take position).reverse, t.drop position⟩

/-- A place by an offset, which counts from the end if it is negative; one outside the text is the end next to it. -/
def atOffset (t : Text) (offset : Int) : Cursor :=
  .atPosition t (if offset < 0 then t.length + offset else offset).toNat

/-- Whether a block may start here: only blanks before it on its line, and before that line nothing, a blank line, or
a line of a heading or a tag. -/
def isBlockStart (c : Cursor) : Bool :=
  let line := c.before.takeWhile (· != '\n')
  Text.isAllBlank line &&
    match c.before.drop line.length with
    | [] => true
    | _ :: earlier =>
      match Text.trim (earlier.takeWhile (· != '\n')).reverse with
      | [] => true
      | x :: _ => x == '#' || x == '@'

end Cursor

namespace BlockConstruct

/-- The matches that start where a block may start; one that starts elsewhere is passed over by a single character. -/
def matchesFrom (construct : BlockConstruct) (before : Text) : Nat → Text → Except Failure (List Match)
  | 0, [] =>
    match construct.pattern.matchAt? ⟨before, []⟩ with
    | some _ => .error (.fault (.emptyBlockMatch construct.name))
    | none => .ok []
  | _ + 1, [] => .ok []
  | 0, x :: rest =>
    match construct.pattern.matchAt? ⟨before, x :: rest⟩ with
    | none => matchesFrom construct (x :: before) 0 rest
    | some m =>
      if m.length = 0 then .error (.fault (.emptyBlockMatch construct.name))
      else if m.start.isBlockStart then do
        let others ← matchesFrom construct (x :: before) (m.length - 1) rest
        pure (m :: others)
      else matchesFrom construct (x :: before) 0 rest
  | skip + 1, x :: rest => matchesFrom construct (x :: before) skip rest

def blockMatches (construct : BlockConstruct) (t : Text) : Except Failure (List Match) :=
  matchesFrom construct [] 0 t

end BlockConstruct

namespace Loading

/-- One or more blank lines, with the ends of the lines around them. -/
def blankLines : Pattern :=
  Pattern.lineBreak ++ Pattern.gaps ++ Pattern.lineBreak ++ Pattern.many (Pattern.gaps ++ Pattern.lineBreak)

/-- The pieces between blank lines that hold something. -/
def pieces (t : Text) : List Text :=
  ((blankLines.split t).map Text.trim).filter (!·.isEmpty)

def standardQuoteType : Text := "quote"

/-- The paragraphs of one block. -/
def load (settings : LoadSettings) (nested : Nested) (construct : BlockConstruct) (raw : Text) :
    Loading → Logged (List Paragraph)
  | .common => pure ((pieces raw).map fun piece => .common piece construct.name)
  | .replacement pieces =>
    let rewriting : Construct := ⟨construct.name, construct.pattern, construct.excluded, .pieces pieces⟩
    pure [.leaf raw construct.name none (.replacement rewriting)]
  | .list => pure [.leaf raw construct.name none .list]
  | .table => pure [.leaf raw construct.name none .table]
  | .image => do
    let image ← Logged.ofExcept (Image.ofText raw none)
    pure [.leaf raw construct.name none (.image image)]
  | .imageRow => do
    let (images, alignment) ← Logged.ofExcept (Image.rowOfText raw)
    pure [.leaf raw construct.name none (.imageRow images alignment)]
  | .quote => do
    let (type, body) ← Quote.ofText settings.strictQuotes raw
    let paragraphs ← nested body
    pure [.container raw construct.name none .quote (type.getD standardQuoteType) paragraphs]
  | .focus =>
    match Block.focus.pattern.matchStart? raw with
    | none => .fail (.resource (.focusBlock raw))
    | some m => do
      let paragraphs ← nested (m.group 2)
      pure [.container raw construct.name none .focus (m.group 1) paragraphs]

end Loading

namespace PlacedBlock

-- `content` is the span of what is not blank; `cursor` is where the paragraph before ended.
def spansFrom (t : Text) (contentStart contentLength count : Nat) : (index cursor : Nat) → List Text → List (Nat × Nat)
  | _, _, [] => []
  | index, cursor, raw :: rest =>
    let (start, stop) :=
      match (if raw.isEmpty then none else Text.find? raw cursor t) with
      | some start => (start, start + raw.length)
      | none =>
        let start := max (contentStart + contentLength * index / count) cursor
        (start, max (contentStart + contentLength * (index + 1) / count) start)
    (start, stop) :: spansFrom t contentStart contentLength count (index + 1) stop rest

/-- The spans of paragraphs loaded from a text: a single one has it all; of several, each is looked for after the one
before, and one that is not found gets its share of the text. -/
def spans (t : Text) (raws : List Text) : List (Nat × Nat) :=
  match raws with
  | [_] => [(0, t.length)]
  | _ =>
    let contentStart := t.length - (Text.trimStart t).length
    let contentStop := (Text.trimEnd t).length
    spansFrom t contentStart (contentStop - contentStart) raws.length 0 0 raws

def place (offset : Nat) (t : Text) (paragraphs : List Paragraph) : List PlacedBlock :=
  (paragraphs.zip (spans t (paragraphs.map Paragraph.raw))).map fun (paragraph, start, stop) =>
    ⟨offset + start, offset + stop, .paragraph paragraph⟩

end PlacedBlock

namespace HeadingConstruct

def relativeWithoutHeading (title : Text) : Text :=
  "relative heading " ++ inTicks title ++ " without a previous heading: level 1 is used"

def clamped (title : Text) (level : Nat) : Text :=
  "heading " ++ inTicks title ++ " clamped to level " ++ Text.ofNat level

/-- The level of a heading after one of level `last`. -/
def levelAfter (last : LastLevel) (title : Text) (construct : HeadingConstruct) : Logged Int :=
  match construct.level, last with
  | .absolute level, _ => pure level
  | .same, some last => pure last
  | .same, none => pure 1
  | _, none => do
    .warn .loading (relativeWithoutHeading title)
    pure 1
  | .deeper, some last =>
    if last + 1 > maximumLevel then do
      .warn .loading (clamped title maximumLevel)
      pure maximumLevel
    else pure (last + 1)
  | .shallower, some last =>
    if last - 1 < 1 then do
      .warn .loading (clamped title 1)
      pure 1
    else pure (last - 1)

-- The rest of a line with something on it that is not blank.
def nonBlankLine : Pattern :=
  Pattern.many (.char CharSet.notNewline) ++ .char (.complement .blank) ++ Pattern.many (.char CharSet.notNewline)

def tagOfLine (line : Text) : Except Failure ChapterTag :=
  match tagLine.fullMatch? line with
  | none => .error (.invalidTag (Text.trim line))
  | some m => ChapterTag.ofText (m.group 1) (m.group? 2)

def tagsOfLines (offset : Nat) : List Match → Except Failure (List PlacedBlock)
  | [] => .ok []
  | m :: rest => do
    let tag ← tagOfLine m.text
    let others ← tagsOfLines offset rest
    pure (⟨offset + m.start.position, offset + m.stop.position, .tag tag⟩ :: others)

/-- The chapter tags of a text, each line of which is blank or a tag. -/
def tags (offset : Nat) (t : Text) : Except Failure (List PlacedBlock) :=
  tagsOfLines offset (nonBlankLine.occurrences t)

def styleTag (offset : Nat) (m : Match) : List PlacedBlock :=
  match m.groupSpan? styleGroup with
  | none => []
  | some (start, stop) =>
    [⟨offset + start - 1, offset + stop + 1, .tag ⟨.style, m.group? styleGroup⟩⟩]

/-- A heading, its tags, and its style as one more tag. -/
def blocks (offset : Nat) (last : LastLevel) (construct : HeadingConstruct) (m : Match) :
    Logged (List PlacedBlock × LastLevel) := do
  let title := m.group titleGroup
  let level ← construct.levelAfter last title
  let titleStop := ((m.groupSpan? titleGroup).map (·.2)).getD m.stop.position
  let tagsStart := ((m.groupSpan? tagsGroup).map (·.1)).getD m.stop.position
  let tagBlocks ← Logged.ofExcept (tags (offset + tagsStart) (m.group tagsGroup))
  pure (⟨offset + m.start.position, offset + titleStop, .heading { level := level, title := title }⟩ :: tagBlocks
    ++ styleTag offset m, some level)

def findAt? (constructs : List HeadingConstruct) (c : Cursor) : Option (HeadingConstruct × Match) :=
  constructs.findSome? fun construct => (construct.pattern.matchAt? c).map (construct, ·)

/-- The headings of a text; at one place the first construct that matches counts. -/
def findAll (constructs : List HeadingConstruct) (t : Text) : List (HeadingConstruct × Match) :=
  Pattern.scan (fun found => found.2.length) (findAt? constructs) t

end HeadingConstruct

/-- A catalogue and settings, and what becomes of the bodies of containers, given how many constructs were tried before
theirs. -/
structure Loader where
  catalogue : Catalogue
  settings : LoadSettings
  nested : (tried : Nat) → Nested

namespace Loader

/-- Text that only the fallback is left for. -/
def fallbackBlocks (loader : Loader) (offset : Nat) (t : Text) : Logged (List PlacedBlock) :=
  if Text.isAllBlank t then pure []
  else match loader.catalogue.fallback.bind fun construct => construct.loading.map (construct, ·) with
    | none => .fail (.unresolvableBlock (Text.trim t))
    | some (construct, loading) => do
      let paragraphs ← loading.load loader.settings (loader.nested 0) construct t
      pure (PlacedBlock.place offset t paragraphs)

/-- Headings with the text between them; `position` is where `t` begins in the text that was searched. -/
def leafBlocksFrom (loader : Loader) (offset : Nat) :
    (position : Nat) → Text → LastLevel → List (HeadingConstruct × Match) → Logged (List PlacedBlock × LastLevel)
  | position, t, last, [] => do
    let blocks ← loader.fallbackBlocks (offset + position) t
    pure (blocks, last)
  | position, t, last, (construct, m) :: found => do
    let before ← loader.fallbackBlocks (offset + position) (t.take (m.start.position - position))
    let (heading, last) ← construct.blocks offset last m
    let (after, last) ←
      leafBlocksFrom loader offset m.stop.position (t.drop (m.stop.position - position)) last found
    pure (before ++ heading ++ after, last)

def leafBlocks (loader : Loader) (offset : Nat) (t : Text) (last : LastLevel) : Logged (List PlacedBlock × LastLevel) :=
  leafBlocksFrom loader offset 0 t last (HeadingConstruct.findAll loader.catalogue.headings t)

/-- The blocks of one construct, and what the constructs below it make of the text around them. -/
def blocksAround (below : Nat → Text → LastLevel → Logged (List PlacedBlock × LastLevel))
    (loadMatch : Match → Logged (List PlacedBlock)) (offset : Nat) :
    (position : Nat) → Text → LastLevel → List Match → Logged (List PlacedBlock × LastLevel)
  | position, t, last, [] => if t.isEmpty then pure ([], last) else below (offset + position) t last
  | position, t, last, m :: found => do
    let gap := t.take (m.start.position - position)
    let (before, last) ← if gap.isEmpty then pure ([], last) else below (offset + position) gap last
    let blocks ← loadMatch m
    let (after, last) ←
      blocksAround below loadMatch offset m.stop.position (t.drop (m.stop.position - position)) last found
    pure (before ++ blocks ++ after, last)

def matchBlocks (loader : Loader) (tried : Nat) (construct : BlockConstruct) (loading : Loading) (offset : Nat)
    (m : Match) : Logged (List PlacedBlock) := do
  .debug .loading ("loading " ++ inTicks (Text.ofString construct.name) ++ " at "
    ++ Text.ofNat (offset + m.start.position))
  let paragraphs ← loading.load loader.settings (loader.nested tried) construct m.text
  pure (PlacedBlock.place (offset + m.start.position) m.text paragraphs)

/-- Partition a text by the given block constructs, then by headings, then by the fallback. -/
def partition (loader : Loader) : List BlockConstruct → Nat → Text → LastLevel → Logged (List PlacedBlock × LastLevel)
  | [], offset, t, last => loader.leafBlocks offset t last
  | construct :: rest, offset, t, last =>
    match construct.loading with
    | none => do
      if loader.settings.strictLoadingRules then
        Logged.fail (.missingLoadingRule construct.name)
      else
        Logged.warn .loading (missingLoadingRuleText construct.name ++ ": construct skipped")
      partition loader rest offset t last
    | some loading => do
      let found ← Logged.ofExcept (construct.blockMatches t)
      let tried := loader.catalogue.blocks.length - rest.length
      blocksAround (partition loader rest) (loader.matchBlocks tried construct loading offset) offset 0 t last found

def sortBlocks (blocks : List PlacedBlock) : List PlacedBlock :=
  blocks.mergeSort fun a b => a.start ≤ b.start

def blocks (loader : Loader) (t : Text) : Logged (List PlacedBlock) := do
  let (blocks, _) ← loader.partition loader.catalogue.blocks 0 t none
  pure (sortBlocks blocks)

end Loader

namespace Nested

def ignored (description : Text) : Logged Unit :=
  .warn .loading (description ++ " inside a nested block: ignored")

/-- The paragraphs among blocks; headings and tags have no place inside a container. -/
def paragraphsOf : List PlacedBlock → Logged (List Paragraph)
  | [] => pure []
  | block :: rest => do
    match block.content with
    | .paragraph paragraph =>
      let others ← paragraphsOf rest
      pure (paragraph :: others)
    | .heading heading =>
      ignored heading.describe
      paragraphsOf rest
    | .tag tag =>
      ignored tag.describe
      paragraphsOf rest

-- However many levels are allowed, there is so much room for containers inside each other.
def room : Nat := 992

-- What a container takes besides one unit for every construct up to its own.
def ownRoom : Nat := 3

/-- What must be left for a body: some units besides one for every construct. -/
def leastRoom (catalogue : Catalogue) : Nat :=
  catalogue.blocks.length + 7

/-- Load a container's body, with `levels` of nesting still allowed. -/
def within (catalogue : Catalogue) (settings : LoadSettings) : (levels room tried : Nat) → Nested
  | 0, _, _, _ => .fail (.recursionDepth settings.maxDepth)
  | levels + 1, room, tried, t =>
    let left := room - (tried + ownRoom)
    if left < leastRoom catalogue then .fail (.fault .endless)
    else do
      let blocks ← Loader.blocks ⟨catalogue, settings, within catalogue settings levels left⟩ t
      paragraphsOf blocks

end Nested

namespace LoadSettings

/-- How many levels of nesting are allowed from a depth on. -/
def levelsFrom (settings : LoadSettings) (depth : Int) : Nat :=
  (settings.maxDepth - depth + 1).toNat

end LoadSettings

namespace Loader

def nestedAt (catalogue : Catalogue) (settings : LoadSettings) (depth : Int) : Nested :=
  Nested.within catalogue settings (settings.levelsFrom depth) Nested.room 0

/-- Partition a text at a depth, from the block construct at `index` on. -/
def partitionAt (catalogue : Catalogue) (settings : LoadSettings) (depth : Int) (index offset : Nat) (t : Text) :
    Logged (List PlacedBlock) :=
  match settings.levelsFrom depth with
  | 0 => .fail (.recursionDepth settings.maxDepth)
  | levels + 1 => do
    let loader : Loader := ⟨catalogue, settings, Nested.within catalogue settings levels Nested.room⟩
    let (blocks, _) ← loader.partition (catalogue.blocks.drop index) offset t none
    pure blocks

/-- The blocks of a text, in order. -/
def load (catalogue : Catalogue) (settings : LoadSettings) (t : Text) : Logged (List PlacedBlock) := do
  let blocks ← partitionAt catalogue settings 0 0 0 t
  pure (sortBlocks blocks)

end Loader

end LightMarkup
