import LightMarkup.Yaml.Node

/-!
Merging: an entry under the merge key gives way to the entries of the mappings that it names. They come before the other
entries, so that these count more, and of several mappings the first one counts most.
-/

namespace LightMarkup

namespace Yaml

namespace Merge

/-- The first entry to be merged, by the node that it names, and the entries without it. -/
def take? (nodes : Array Node) : List (Nat × Nat) → Option (Nat × List (Nat × Nat))
  | [] => none
  | (key, value) :: rest =>
    if Node.tagOf nodes key = .merge then some (value, rest)
    else (take? nodes rest).map fun (target, others) => (target, (key, value) :: others)

def isMapping (nodes : Array Node) (id : Nat) : Bool :=
  match Node.contentOf nodes id with
  | .mapping _ => true
  | _ => false

/-- The mappings that are merged where a node is named: the node itself, or the items of a list. -/
def targets (nodes : Array Node) (id : Nat) : Except Problem (List Nat) :=
  match Node.contentOf nodes id with
  | .mapping _ => .ok [id]
  | .sequence items => if items.all (isMapping nodes) then .ok items else .error .malformed
  | .scalar _ => .error .malformed

/-- Put entries before those of a mapping. A key for the standard value is an ordinary text there. -/
def prepend (id : Nat) (merged : List (Nat × Nat)) (nodes : Array Node) : Array Node :=
  let entries := merged ++ Node.entriesOf nodes id
  entries.foldl
    (fun nodes (key, _) => if Node.tagOf nodes key = .standard then Node.withTag nodes key .text else nodes)
    (Node.withEntries nodes id entries)

/-- Remove the entries to be merged from a mapping, and tell what comes in their place. Every one that is removed takes
one unit of `fuel`; a mapping that names itself finds only the entries that it still has. -/
def collect : (fuel : Nat) → Nat → Array Node → Except Problem (List (Nat × Nat) × Array Node)
  | 0, _, nodes => .ok ([], nodes)
  | fuel + 1, id, nodes =>
    match take? nodes (Node.entriesOf nodes id) with
    | none => .ok ([], nodes)
    | some (target, others) => do
      let nodes := Node.withEntries nodes id others
      let ids ← targets nodes target
      let (found, nodes) ← ids.foldlM
        (fun (found, nodes) id => do
          let (merged, nodes) ← collect fuel id nodes
          let nodes := prepend id merged nodes
          pure (Node.entriesOf nodes id ++ found, nodes))
        ([], nodes)
      let (more, nodes) ← collect fuel id nodes
      pure (found ++ more, nodes)

/-- Merge what a mapping names into it. -/
def intoMapping (fuel id : Nat) (nodes : Array Node) : Except Problem (Array Node) := do
  let (merged, nodes) ← collect fuel id nodes
  pure (prepend id merged nodes)

end Merge

end Yaml

end LightMarkup
