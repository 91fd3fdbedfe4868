import LightMarkup.Text.Lines
import LightMarkup.Value.Slots
import LightMarkup.Yaml.Composing
import LightMarkup.Yaml.Form

/-!
Reading YAML: the value of a text.
-/

namespace LightMarkup

namespace Yaml

namespace Form

def children : Form → List Nat
  | .value _ | .notANumber => []
  | .list items => items
  | .pairs entries => entries.flatMap fun (key, held) => [key, held]
  | .set members => members
  | .mapping entries => entries.flatMap fun (key, held) => [key, held]

/-- The value of a form, given the values of the nodes inside it. -/
def toValue (valueOf : Nat → Value) : Form → Value
  | .value v => v
  | .notANumber => .decimal .notANumber
  | .list items => .list (items.map valueOf)
  | .pairs entries => .list (entries.map fun (key, held) => .pair (valueOf key) (valueOf held))
  | .set members => .set (Slots.ordered (members.map valueOf))
  | .mapping entries => .mapping (entries.map fun (key, held) => (valueOf key, valueOf held))

def formAt (forms : Forms) (id : Nat) : Form :=
  (forms.getD id none).getD (.value .null)

/-- How a node is shown inside others. A node that is found again inside itself is left out there. -/
def shownInside (forms : Forms) : (fuel : Nat) → (around : List Nat) → Nat → Text
  | 0, _, _ => []
  | fuel + 1, around, id =>
    let shown (inner : Nat) : Text := shownInside forms fuel (id :: around) inner
    let found := around.contains id
    match formAt forms id with
    | .list items => if found then "[...]" else Text.bracketed (items.map shown)
    | .pairs entries =>
      if found then "[...]"
      else Text.bracketed (entries.map fun (key, held) => "(" ++ shown key ++ ", " ++ shown held ++ ")")
    | .mapping entries =>
      if found then "\x7b...\x7d"
      else "\x7b" ++ Text.join ", " (entries.map fun (key, held) => shown key ++ ": " ++ shown held) ++ "\x7d"
    | form => (form.toValue fun member => (formAt forms member).toValue fun _ => .null).inside

/-- The nodes that can be reached; `fuel` is at least the number of nodes and of steps from one to another. -/
def reached (forms : Forms) : (fuel : Nat) → (seen : Array Bool) → (next : List Nat) → Array Bool
  | 0, seen, _ => seen
  | _, seen, [] => seen
  | fuel + 1, seen, id :: next =>
    if seen.getD id true then reached forms fuel seen next
    else reached forms fuel (seen.setIfInBounds id true) ((formAt forms id).children ++ next)

/-- Whether a node is found inside itself. -/
def isRecurring (forms : Forms) (fuel id : Nat) : Bool :=
  (reached forms fuel (Array.replicate forms.size false) (formAt forms id).children).getD id false

/-- The values of nodes, taken in the given order; `shown` tells how recurring nodes are shown. -/
def sweep (forms : Forms) (shown : List (Nat × Text)) (order : List Nat) (values : Array Value) :
    Array Value :=
  order.foldl
    (fun values id =>
      let value := (formAt forms id).toValue fun inner => values.getD inner .null
      values.setIfInBounds id (match shown.lookup id with
        | none => value
        | some t => .recurring t value))
    values

-- How deep a recurring value is unfolded: a configuration is never looked into so deeply.
def unfoldings : Nat := 8

/-- Whether every node comes after the nodes inside it. -/
def isOrdered (forms : Forms) (order : List Nat) : Bool :=
  (order.foldl
    (fun (seen, ordered) id =>
      (seen.setIfInBounds id true, ordered && (formAt forms id).children.all fun inner => seen.getD inner false))
    (Array.replicate forms.size false, true)).2

/-- The values of all nodes. -/
def values (forms : Forms) (order : List Nat) : Array Value :=
  let start : Array Value := Array.replicate forms.size .null
  if isOrdered forms order then sweep forms [] order start
  else
    let steps := order.foldl (fun count id => count + (formAt forms id).children.length) (2 * order.length + 1)
    let shown := (order.filter (isRecurring forms steps)).map fun id => (id, shownInside forms (order.length + 1) [] id)
    (List.range unfoldings).foldl (fun values _ => sweep forms shown order values) start

end Form

/-- The value of a document. -/
def Graph.value (g : Graph) : Except Problem Value := do
  let forms ← g.forms
  pure ((Form.values forms g.finished).getD g.root .null)

/-- Characters that a text may hold: no control characters but tabs and line breaks, and no character that stands for
none. -/
def isAllowed (c : Char) : Bool :=
  let n := c.toNat
  n == 0x09 || n == 0x0a || n == 0x0d || (0x20 ≤ n && n ≤ 0x7e) || n == 0x85 || (0xa0 ≤ n && n ≤ 0xfffd) || 0x10000 ≤ n

/-- The value of a text with one document; a text without any has the value null. -/
def parse (t : Text) : Except Problem Value := do
  let t := Text.withNewlines t
  if !t.all isAllowed then throw .malformed
  match ← Graph.ofTokens (Token.ofText t) with
  | none => return .null
  | some g => g.value

end Yaml

end LightMarkup
