import LightMarkup.Yaml.Merge
import LightMarkup.Yaml.Scalar

/-!
What the nodes of a document are read as. Scalars are read at once. Collections wait for their turn, so that a node may
be found inside itself, and so that of two problems the one that is less deep is told.
-/

namespace LightMarkup

namespace Yaml

/-- What a node is read as; the nodes inside it by their places. -/
inductive Form where
  | value (v : Value)
  /-- The one value that the word for what is no number stands for. -/
  | notANumber
  | list (items : List Nat)
  | pairs (entries : List (Nat × Nat))
  | set (members : List Nat)
  | mapping (entries : List (Nat × Nat))
  deriving Repr, Inhabited

/-- The forms of the nodes that have been read, by their places. -/
abbrev Forms := Array (Option Form)

/-- The nodes of a document, what they have been read as so far, and the collections whose turn is still to come. -/
structure Forming where
  nodes : Array Node
  forms : Forms
  waiting : List Nat
  fuel : Nat

namespace Form

/-- Whether two nodes are one key of a mapping. -/
def isSameKey (forms : Forms) (a b : Nat) : Bool :=
  a == b || match (forms.getD a none), (forms.getD b none) with
    | some (.value v), some (.value w) => v.isSameKey w
    | some .notANumber, some .notANumber => true
    | _, _ => false

/-- Put an entry into a mapping, at the place of the entry under the same key if there is one. -/
def putEntry (same : Nat → Nat → Bool) (entries : List (Nat × Nat)) (entry : Nat × Nat) : List (Nat × Nat) :=
  match entries with
  | [] => [entry]
  | (key, held) :: rest =>
    if same key entry.1 then (key, entry.2) :: rest else (key, held) :: putEntry same rest entry

/-- What a scalar is read as. A moment is never taken from the standard value of a mapping. -/
def ofScalar (nodes : Array Node) (id : Nat) : Except Problem Form := do
  let tag := Node.tagOf nodes id
  if !tag.isScalar then throw .malformed
  let t ← Node.text nodes (nodes.size + 1) id
  if tag = .moment && Merge.isMapping nodes id then throw .notText
  if tag = .float && Scalar.isNamedNotANumber t then return .notANumber
  return .value (← Scalar.value tag t)

end Form

abbrev Formation := StateT Forming (Except Problem)

namespace Formation

def setForm (id : Nat) (form : Form) : Formation Unit :=
  modify fun f => { f with forms := f.forms.setIfInBounds id (some form) }

/-- Read a node that has not been read yet; the contents of a collection come later. -/
def visit (id : Nat) : Formation Unit := do
  let f ← get
  if (f.forms.getD id none).isSome then return
  if (Node.tagOf f.nodes id).isCollection then
    setForm id (.list [])
    modify fun f => { f with waiting := f.waiting ++ [id] }
  else setForm id (← Form.ofScalar f.nodes id)

/-- Read an entry of a mapping. -/
def visitEntry (entry : Nat × Nat) : Formation Unit := do
  visit entry.1
  if (Node.tagOf (← get).nodes entry.1).isCollection then throw .malformed
  visit entry.2

/-- Read the entries of a mapping, after what is merged into it; the last one under a key counts. -/
def entriesOf (id : Nat) : Formation (List (Nat × Nat)) := do
  let f ← get
  set { f with nodes := ← Merge.intoMapping f.fuel id f.nodes }
  let entries := Node.entriesOf (← get).nodes id
  entries.forM visitEntry
  return entries.foldl (Form.putEntry (Form.isSameKey (← get).forms)) []

/-- Read a mapping with a single entry. -/
def pairOf (id : Nat) : Formation (Nat × Nat) := do
  match Node.entriesOf (← get).nodes id with
  | [(key, value)] =>
    visit key
    visit value
    return (key, value)
  | _ => throw .malformed

/-- Read what is inside a collection. -/
def fill (id : Nat) : Formation Unit := do
  let nodes := (← get).nodes
  match Node.tagOf nodes id, Node.contentOf nodes id with
  | .sequence, .sequence items =>
    items.forM visit
    setForm id (.list items)
  | .pairs, .sequence items => setForm id (.pairs (← items.mapM pairOf))
  | .mapping, .mapping _ => setForm id (.mapping (← entriesOf id))
  | .set, .mapping _ => setForm id (.set ((← entriesOf id).map (·.1)))
  | _, _ => throw .malformed

/-- Fill collections in the order in which they were found. -/
def fillAll : (fuel : Nat) → Formation Unit
  | 0 => return
  | fuel + 1 => do
    match (← get).waiting with
    | [] => return
    | id :: others =>
      modify fun f => { f with waiting := others }
      fill id
      fillAll fuel

end Formation

namespace Graph

/-- The number of entries, which bounds how often anything is merged. -/
def entryCount (g : Graph) : Nat :=
  g.nodes.foldl
    (fun count node => match node.content with
      | .mapping entries => count + entries.length
      | _ => count)
    0

/-- What the nodes are read as, as far as the root leads to them. -/
def forms (g : Graph) : Except Problem Forms :=
  let start : Forming := ⟨g.nodes, Array.replicate g.nodes.size none, [], g.entryCount + 1⟩
  ((do
    Formation.visit g.root
    Formation.fillAll (g.nodes.size + 1) : Formation Unit).run start).map fun (_, f) => f.forms

end Graph

end Yaml

end LightMarkup
