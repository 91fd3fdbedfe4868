import LightMarkup.Exclusion
import LightMarkup.Logged
import LightMarkup.Pattern.Search

/-!
Drafts: text on its way to HTML, held as parts. A fixed part is output that no construct touches again; a live
part may still be rewritten by every construct that it does not exclude.

A construct looks at the live text visible to it as one text. Its matches are cut out of the parts, with whatever
is hidden between their ends, rewritten, and put back (`applyAt`).
-/

namespace LightMarkup

inductive Part where
  | fixed (content : Text)
  | live (content : Text) (excluded : Exclusion)
  deriving DecidableEq, Repr

/-- The scope is the construct that looks at the text; live parts that exclude it are hidden from it. -/
structure Draft where
  parts : List Part
  nuid : Option Text
  scope : Option String
  deriving DecidableEq, Repr

/-- Which ends of a slice keep the hidden parts that lie exactly there. -/
structure Boundary where
  left : Bool
  right : Bool
  deriving DecidableEq, Repr

namespace Part

def content : Part → Text
  | .fixed content => content
  | .live content _ => content

def withContent (content : Text) : Part → Part
  | .fixed _ => .fixed content
  | .live _ excluded => .live content excluded

def visibleTo : Option String → Part → Bool
  | _, .fixed _ => false
  | none, .live _ _ => true
  | some scope, .live _ excluded => !excluded.contains scope

/-- Equal contents, equal kinds, and exclusions equal as sets. -/
def agrees : Part → Part → Bool
  | .fixed a, .fixed b => a == b
  | .live a excluded, .live b other => a == b && excluded.agrees other
  | _, _ => false

def describe : Part → Text
  | .fixed content => "CompilableTextPart.fixed(" ++ Text.quoted content ++ ")"
  | .live content excluded =>
    "CompilableTextPart.compilable(" ++ Text.quoted content ++ ", " ++ excluded.describe ++ ")"

end Part

namespace Boundary

def both : Boundary := ⟨true, true⟩

def ofName (name : Text) : Except Failure Boundary :=
  if name = "none" then .ok ⟨false, false⟩
  else if name = "left" then .ok ⟨true, false⟩
  else if name = "right" then .ok ⟨false, true⟩
  else if name = "both" then .ok both
  else .error (.fault (.invalidBoundary name))

end Boundary

/-- All text, fixed and live. -/
def contentOf (parts : List Part) : Text :=
  parts.flatMap Part.content

def visibleContentOf (scope : Option String) (parts : List Part) : Text :=
  (parts.filter (·.visibleTo scope)).flatMap Part.content

namespace Draft

def ofLive (content : Text) (excluded : Exclusion) (nuid : Option Text) : Draft :=
  ⟨[.live content excluded], nuid, none⟩

def content (d : Draft) : Text :=
  contentOf d.parts

def visibleContent (d : Draft) : Text :=
  visibleContentOf d.scope d.parts

def isVisible (d : Draft) (part : Part) : Bool :=
  part.visibleTo d.scope

/-- Equal parts and NUID; the scope is not compared. -/
def agrees (d e : Draft) : Bool :=
  d.parts.length == e.parts.length && (d.parts.zip e.parts).all (fun (p, q) => p.agrees q) && d.nuid == e.nuid

def describe (d : Draft) : Text :=
  "CompilableText(" ++ Text.bracketed (d.parts.map Part.describe) ++ ", nuid=" ++ Text.quotedOrNone d.nuid ++ ")"

-- Offsets below are in the visible content; `position` is where the list of parts begins.

def endsFrom (scope : Option String) (position : Nat) : List Part → List Nat
  | [] => []
  | part :: rest =>
    if part.visibleTo scope then
      (position + part.content.length) :: endsFrom scope (position + part.content.length) rest
    else endsFrom scope position rest

/-- The end of every visible part. -/
def ends (d : Draft) : List Nat :=
  endsFrom d.scope 0 d.parts

def edgesFrom (scope : Option String) (position : Nat) : List Part → List Nat
  | [] => []
  | part :: rest =>
    if part.visibleTo scope && !part.content.isEmpty then
      position :: (position + part.content.length) :: edgesFrom scope (position + part.content.length) rest
    else edgesFrom scope position rest

/-- Where visible parts that are not empty begin and end. -/
def edges (d : Draft) : List Nat :=
  edgesFrom d.scope 0 d.parts

/-- Visible parts cut to `[start, stop)`, with the hidden parts in between. -/
def sliceFrom (scope : Option String) (boundary : Boundary) (start stop : Nat) (position : Nat) : List Part → List Part
  | [] => []
  | part :: rest =>
    if part.visibleTo scope then
      let past := position + part.content.length
      let first := max position start
      let last := min past stop
      let others := sliceFrom scope boundary start stop past rest
      if first < last then
        part.withContent ((part.content.take (last - position)).drop (first - position)) :: others
      else others
    else
      let others := sliceFrom scope boundary start stop position rest
      if (start < position && position < stop) || (position == start && boundary.left)
          || (position == stop && boundary.right) then
        part :: others
      else others

/-- The nearest edge inside, for an end that does not keep its hidden parts. -/
def innerStart (edges : List Nat) (start : Nat) : Nat :=
  ((edges.filter (start ≤ ·)).min?).getD start

def innerStop (edges : List Nat) (stop : Nat) : Nat :=
  ((edges.filter (· ≤ stop)).max?).getD stop

/-- The parts that cover `[start, stop)` of the visible content. -/
def slice (d : Draft) (start stop : Nat) (boundary : Boundary) : Except Failure (List Part) :=
  let length := d.visibleContent.length
  if stop < start then .error (.sliceReversed start stop)
  else if length < stop then .error (.sliceOverflow stop length)
  else
    let first := if boundary.left then start else innerStart d.edges start
    let last := if boundary.right then stop else innerStop d.edges stop
    if last < first then .ok [] else .ok (sliceFrom d.scope boundary first last 0 d.parts)

/-- A slice between offsets that may also lie before the text. From there on, hidden parts at the beginning of the text
are not at the left end of the slice. -/
def sliceBetween (d : Draft) (start stop : Int) (boundary : Boundary) : Except Failure (List Part) :=
  if stop < start then .error (.sliceReversed start stop)
  else if stop < 0 then .ok []
  else do
    let parts ← d.slice start.toNat stop.toNat boundary
    let atBeginning := !boundary.right && innerStop d.edges stop.toNat == 0
    pure (if start < 0 && atBeginning then [] else parts)

/-- A part, or the cut end of one, seen from the matches: outside them all, inside one, or the end of one. -/
inductive Cut where
  | outside (part : Part)
  | inside (part : Part)
  | close
  deriving DecidableEq, Repr

def keepSome (kind : Part → Cut) (part : Part) : List Cut :=
  if part.content.isEmpty then [] else [kind part]

/-- Cut one visible part that begins at `position` by the matches still open or ahead, and say which are left. -/
def cutVisible (part : Part) (position : Nat) : List (Nat × Nat) → List Cut × List (Nat × Nat)
  | [] => (keepSome .outside part, [])
  | (start, stop) :: spans =>
    let before := part.withContent (part.content.take (start - position))
    let after := part.content.drop (start - position)
    let first := max position start
    let inner := part.withContent (after.take (stop - first))
    let cuts := keepSome .outside before ++ keepSome .inside inner
    if position + part.content.length < stop then (cuts, (start, stop) :: spans)
    else
      let (others, left) := cutVisible (part.withContent (after.drop (stop - first))) stop spans
      (cuts ++ .close :: others, left)

/-- Cut the parts at the ends of the matches. A hidden part belongs to the match that has begun before it. -/
def cutFrom (scope : Option String) (position : Nat) : List (Nat × Nat) → List Part → List Cut
  | _, [] => []
  | spans, part :: rest =>
    if part.visibleTo scope then
      let (cuts, left) := cutVisible part position spans
      cuts ++ cutFrom scope (position + part.content.length) left rest
    else
      let inside := match spans with
        | [] => false
        | (start, _) :: _ => start < position
      (if inside then .inside part else .outside part) :: cutFrom scope position spans rest

/-- Put the rewritten matches back between what lies outside them; `pending` holds the match being collected. -/
def splice (construct : String) (rewrite : List Part → Logged (List Part)) : List Part → List Cut → Logged (List Part)
  | [], [] => pure []
  | _ :: _, [] => .fail (.fault (.unclosedMatch construct))
  | pending, .outside part :: cuts => do
    let rest ← splice construct rewrite pending cuts
    pure (part :: rest)
  | pending, .inside part :: cuts => splice construct rewrite (pending ++ [part]) cuts
  | pending, .close :: cuts => do
    let rewritten ← rewrite pending
    let rest ← splice construct rewrite [] cuts
    pure (rewritten ++ rest)

/-- Rewrite the given spans of the text visible to `construct`, in order. -/
def applyAt (construct : String) (spans : List (Nat × Nat)) (rewrite : Draft → Logged (List Part)) (d : Draft) :
    Logged Draft :=
  if spans.isEmpty then pure d
  else do
    .debug .drafts
      ("applying " ++ inTicks (Text.ofString construct) ++ " on " ++ Text.ofNat spans.length ++ " match(es)")
    let parts ← splice construct (fun parts => rewrite ⟨parts, d.nuid, some construct⟩) []
      (cutFrom (some construct) 0 spans d.parts)
    pure ⟨parts, d.nuid, d.scope⟩

/-- Where a pattern takes at least one character of the text visible to `construct`. -/
def spansOf (construct : String) (pattern : Pattern) (d : Draft) : List (Nat × Nat) :=
  (pattern.occurrences (visibleContentOf (some construct) d.parts)).map Match.span

end Draft

end LightMarkup
