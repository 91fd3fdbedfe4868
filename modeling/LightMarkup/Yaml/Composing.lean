import LightMarkup.Yaml.Node
import LightMarkup.Yaml.Token

/-!
Reading nodes from tokens. References stand for the nodes that their anchors name; an anchor can be referred to as soon
as its node begins.
-/

namespace LightMarkup

namespace Yaml

/-- Tokens that are still to be read, the anchors and nodes so far, and how many collections are open. The last node
that is finished comes first. -/
structure Composing where
  tokens : List Token
  handles : List (Text × Text)
  anchors : List (Text × Nat)
  nodes : Array Node
  finished : List Nat
  depth : Nat

/-- The anchor and the tag of a node. -/
structure Properties where
  anchor : Option Text
  tag : Option Text
  deriving DecidableEq, Repr

abbrev Compose := StateT Composing (Except Problem)

namespace Compose

/-- The next token. A problem is met as soon as the token in its place is asked for. -/
def next? : Compose (Option Token) := do
  match (← get).tokens.head? with
  | some (.broken problem) => throw problem
  | token => return token

def skip : Compose Unit :=
  modify fun c => { c with tokens := c.tokens.tail }

/-- There is no way on from the next token. -/
def refuse {α : Type} : Compose α := do
  discard next?
  throw .malformed

def isAt (tokens : List Token) : Compose Bool := do
  return (← next?).any tokens.contains

/-- Whether there are no more tokens, or one of those comes next. -/
def endsAt (tokens : List Token) : Compose Bool := do
  return (← next?).all tokens.contains

/-- Take a token that must come next. -/
def expect (token : Token) : Compose Unit := do
  if ← isAt [token] then skip else refuse

def anchor? : Compose (Option Text) := do
  match ← next? with
  | some (.anchor name) =>
    skip
    return some name
  | _ => return none

def tag? : Compose (Option (Option Text × Text)) := do
  match ← next? with
  | some (.tag handle suffix) =>
    skip
    return some (handle, suffix)
  | _ => return none

/-- The tag that a handle and a suffix stand for. -/
def fullTag : Option Text × Text → Compose Text
  | (none, suffix) => return suffix
  | (some handle, suffix) => do
    match (← get).handles.lookup handle with
    | some start => return start ++ suffix
    | none => throw .malformed

/-- An anchor and a tag, in any order, each of which may be missing. -/
def properties : Compose Properties := do
  let (anchor, tag) ← match ← anchor? with
    | some name => pure (some name, ← tag?)
    | none =>
      let tag ← tag?
      pure (← anchor?, tag)
  return ⟨anchor, ← tag.mapM fullTag⟩

/-- Make a place for a node that is about to be read, under its anchor; no anchor may come twice. -/
def begin (anchor : Option Text) : Compose Nat := do
  let c ← get
  let id := c.nodes.size
  let anchors ← match anchor with
    | none => pure c.anchors
    | some name => if (c.anchors.lookup name).isSome then refuse else pure ((name, id) :: c.anchors)
  set { c with anchors := anchors, nodes := c.nodes.push .nothing }
  return id

def finish (id : Nat) (node : Node) : Compose Nat := do
  modify fun c => { c with nodes := c.nodes.setIfInBounds id node, finished := id :: c.finished }
  return id

/-- A node that is not written. -/
def empty : Compose Nat := do
  finish (← begin none) .nothing

/-- How many collections may be open at once. -/
def deepest : Nat := 489

/-- Read what is inside a collection. -/
def nested {α : Type} (inside : Compose α) : Compose α := do
  if deepest ≤ (← get).depth then throw .endless
  modify fun c => { c with depth := c.depth + 1 }
  let a ← inside
  modify fun c => { c with depth := c.depth - 1 }
  return a

end Compose

namespace Node

/-- The tag that leaves the choice to the content, quoted or not. -/
def byContent : Text := ['!']

def scalarTag (given : Option Text) (plain : Bool) (t : Text) : Tag :=
  match given with
  | none => if plain then Tag.ofContent t else .text
  | some name => if name = byContent then Tag.ofContent t else Tag.ofName name

def collectionTag (usual : Tag) (given : Option Text) : Tag :=
  match given with
  | none => usual
  | some name => if name = byContent then usual else Tag.ofName name

open Compose

/-- A node that has properties and nothing else; there must be one of them. -/
def bare (given : Properties) : Compose Node := do
  if given = ⟨none, none⟩ then refuse
  return ⟨collectionTag .null given.tag, .scalar []⟩

mutual

/-- Read a node. Blocks are allowed outside brackets; an entry can begin a sequence only where `entries` says so. -/
def read (fuel : Nat) (blocks entries : Bool) : Compose Nat :=
  match fuel with
  | 0 => refuse
  | fuel + 1 => do
    match ← next? with
    | some (.reference name) =>
      match (← get).anchors.lookup name with
      | some id =>
        skip
        return id
      | none => refuse
    | _ =>
      let given ← properties
      let id ← begin given.anchor
      let node ← readContent fuel blocks entries given
      finish id node

/-- Read what follows the properties of a node. -/
def readContent (fuel : Nat) (blocks entries : Bool) (given : Properties) : Compose Node :=
  match fuel with
  | 0 => refuse
  | fuel + 1 => do
    let sequence (items : Compose (List Nat)) : Compose Node := do
      return ⟨collectionTag .sequence given.tag, .sequence (← nested items)⟩
    let mapping (found : Compose (List (Nat × Nat))) : Compose Node := do
      return ⟨collectionTag .mapping given.tag, .mapping (← nested found)⟩
    match ← next? with
    | some (.scalar t plain) =>
      skip
      return ⟨scalarTag given.tag plain t, .scalar t⟩
    | some .sequenceStart =>
      skip
      sequence (flowItems fuel true)
    | some .mappingStart =>
      skip
      mapping (flowEntries fuel true)
    | some .entry => if entries then sequence (blockItems fuel true) else bare given
    | some .blockSequence =>
      if blocks then
        skip
        let node ← sequence (blockItems fuel false)
        expect .blockEnd
        return node
      else bare given
    | some .blockMapping =>
      if blocks then
        skip
        let node ← mapping (blockEntries fuel)
        expect .blockEnd
        return node
      else bare given
    | _ => bare given

/-- Read a node, or an empty one before a token of `stops`. -/
def readUnless (fuel : Nat) (stops : List Token) (blocks entries : Bool) : Compose Nat :=
  match fuel with
  | 0 => refuse
  | fuel + 1 => do
    if ← endsAt stops then empty else read fuel blocks entries

/-- The items of a block sequence; one that is not indented also ends before a key or a value. -/
def blockItems (fuel : Nat) (unindented : Bool) : Compose (List Nat) :=
  match fuel with
  | 0 => refuse
  | fuel + 1 => do
    if ← isAt [.entry] then
      skip
      let stops : List Token := if unindented then [.entry, .key, .value, .blockEnd] else [.entry, .blockEnd]
      let item ← readUnless fuel stops true false
      let items ← blockItems fuel unindented
      return item :: items
    else return []

def blockEntries (fuel : Nat) : Compose (List (Nat × Nat)) :=
  match fuel with
  | 0 => refuse
  | fuel + 1 => do
    if ← isAt [.key] then
      skip
      let key ← readUnless fuel [.key, .value, .blockEnd] true true
      let value ← valueUnless fuel [.key, .value, .blockEnd] true
      let entries ← blockEntries fuel
      return (key, value) :: entries
    else return []

/-- The value of a key; without its mark it is empty. -/
def valueUnless (fuel : Nat) (stops : List Token) (blocks : Bool) : Compose Nat :=
  match fuel with
  | 0 => refuse
  | fuel + 1 => do
    if ← isAt [.value] then
      skip
      readUnless fuel stops blocks blocks
    else empty

/-- An entry in brackets, up to the comma or the bracket after it. -/
def flowEntry (fuel : Nat) (closing : Token) : Compose (Nat × Nat) :=
  match fuel with
  | 0 => refuse
  | fuel + 1 => do
    let key ← readUnless fuel [.value, .comma, closing] false false
    let value ← valueUnless fuel [.comma, closing] false
    return (key, value)

/-- The items up to the closing bracket. Items are parted by commas, and the last one may be followed by one. A key
among them is a mapping of its own. -/
def flowItems (fuel : Nat) (first : Bool) : Compose (List Nat) :=
  match fuel with
  | 0 => refuse
  | fuel + 1 => do
    if !first && !(← isAt [.sequenceEnd]) then expect .comma
    if ← isAt [.sequenceEnd] then
      skip
      return []
    let item ←
      if ← isAt [.key] then
        skip
        let id ← begin none
        let entry ← nested (flowEntry fuel .sequenceEnd)
        finish id ⟨.mapping, .mapping [entry]⟩
      else read fuel false false
    let items ← flowItems fuel false
    return item :: items

/-- The entries up to the closing brace, parted like the items of a sequence. -/
def flowEntries (fuel : Nat) (first : Bool) : Compose (List (Nat × Nat)) :=
  match fuel with
  | 0 => refuse
  | fuel + 1 => do
    if !first && !(← isAt [.mappingEnd]) then expect .comma
    if ← isAt [.mappingEnd] then
      skip
      return []
    let entry ←
      if ← isAt [.key] then
        skip
        flowEntry fuel .mappingEnd
      else do
        let key ← read fuel false false
        let value ← empty
        pure (key, value)
    let entries ← flowEntries fuel false
    return entry :: entries

end

end Node

namespace Compose

/-- Handles that need no directive. -/
def standardHandles : List (Text × Text) :=
  [("!", "!"), ("!!", Tag.coreStart)]

/-- The directives before a document. Each comes once, and the version must be the first. -/
def directives (fuel : Nat) (versioned : Bool) : Compose Unit :=
  match fuel with
  | 0 => refuse
  | fuel + 1 => do
    match ← next? with
    | some (.version major) =>
      if versioned || major != 1 then refuse
      skip
      directives fuel true
    | some (.tagHandle handle start) =>
      if ((← get).handles.lookup handle).isSome then refuse
      modify fun c => { c with handles := c.handles ++ [(handle, start)] }
      skip
      directives fuel versioned
    | some .otherDirective =>
      skip
      directives fuel versioned
    | _ => return

def isDirective : Token → Bool
  | .version _ | .tagHandle _ _ | .otherDirective => true
  | _ => false

def isBetweenDocuments (token : Token) : Bool :=
  isDirective token || token == .documentStart || token == .documentEnd

/-- The node that a document begins with. -/
def root (fuel : Nat) : Compose Nat := do
  modify fun c => { c with handles := c.handles ++ standardHandles }
  Node.read fuel true false

/-- The only document of a text. Nothing need be written after its mark, and only marks of the end may follow it. -/
def document (fuel : Nat) : Compose Nat := do
  let id ←
    if (← next?).any fun token => isDirective token || token == .documentStart then
      directives fuel false
      expect .documentStart
      if (← next?).all isBetweenDocuments then empty else root fuel
    else root fuel
  if !(← get).tokens.all (· == .documentEnd) then
    modify fun c => { c with tokens := c.tokens.dropWhile (· == .documentEnd), handles := [] }
    directives fuel false
    refuse
  return id

end Compose

namespace Graph

/-- The nodes of a text's only document; nothing at all if there is none. -/
def ofTokens (tokens : List Token) : Except Problem (Option Graph) :=
  if tokens.isEmpty then .ok none
  else
    ((Compose.document (8 * tokens.length + 8)).run ⟨tokens, [], [], #[], [], 0⟩).map
      fun (root, c) => some ⟨c.nodes, root, c.finished.reverse⟩

end Graph

end Yaml

end LightMarkup
