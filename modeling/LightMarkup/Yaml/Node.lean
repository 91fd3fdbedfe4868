import LightMarkup.Yaml.Problem
import LightMarkup.Yaml.Tag

/-!
Nodes of a YAML document. A node is known by its place among the nodes of the document, so that references lead to the
very node that their anchor names, even from inside it.
-/

namespace LightMarkup

namespace Yaml

inductive Content where
  | scalar (t : Text)
  | sequence (items : List Nat)
  | mapping (entries : List (Nat × Nat))
  deriving DecidableEq, Repr, Inhabited

/-- A node knows the tag it is read by. -/
structure Node where
  tag : Tag
  content : Content
  deriving DecidableEq, Repr

/-- The nodes of a document. A node is `finished` after the nodes inside it, references apart. -/
structure Graph where
  nodes : Array Node
  root : Nat
  finished : List Nat
  deriving DecidableEq, Repr

namespace Node

-- What is found where there is no node.
def nothing : Node :=
  ⟨.null, .scalar []⟩

instance : Inhabited Node := ⟨nothing⟩

def tagOf (nodes : Array Node) (id : Nat) : Tag :=
  (nodes.getD id nothing).tag

def contentOf (nodes : Array Node) (id : Nat) : Content :=
  (nodes.getD id nothing).content

def entriesOf (nodes : Array Node) (id : Nat) : List (Nat × Nat) :=
  match contentOf nodes id with
  | .mapping entries => entries
  | _ => []

def withEntries (nodes : Array Node) (id : Nat) (entries : List (Nat × Nat)) : Array Node :=
  nodes.modify id fun node => { node with content := .mapping entries }

def withTag (nodes : Array Node) (id : Nat) (tag : Tag) : Array Node :=
  nodes.modify id fun node => { node with tag := tag }

/-- The text of a scalar. A mapping has the text of its standard value; `fuel` bounds how far that leads. -/
def text (nodes : Array Node) : (fuel : Nat) → Nat → Except Problem Text
  | 0, _ => .error .endless
  | fuel + 1, id =>
    match contentOf nodes id with
    | .scalar t => .ok t
    | .sequence _ => .error .malformed
    | .mapping entries =>
      match entries.find? fun (key, _) => tagOf nodes key = .standard with
      | some (_, value) => text nodes fuel value
      | none => .error .malformed

end Node

end Yaml

end LightMarkup
