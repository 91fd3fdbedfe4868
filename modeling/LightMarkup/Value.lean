import LightMarkup.Decimal.Reading
import LightMarkup.Moment
import LightMarkup.Text.Quoted

/-!
Values of a configuration file before they are checked.
-/

namespace LightMarkup

inductive Value where
  | null
  | bool (b : Bool)
  | int (n : Int)
  | decimal (x : Binary64)
  | text (t : Text)
  | bytes (bs : List UInt8)
  | moment (m : Moment)
  | list (items : List Value)
  | pair (first second : Value)
  | set (members : List Value)
  | mapping (entries : List (Value × Value))
  /-- A collection that is found again inside itself: how it is shown, and what it holds, down to some depth. -/
  | recurring (shown : Text) (content : Value)
  deriving Inhabited, Repr

namespace Value

mutual

/-- How a value is shown inside a collection. -/
def inside : Value → Text
  | .null => "None"
  | .bool true => "True"
  | .bool false => "False"
  | .int n => Text.ofInt n
  | .decimal x => x.text
  | .text t => Text.quoted t
  | .bytes bs => Text.quotedBytes bs
  | .moment m => m.inside
  | .list items => Text.bracketed (insideItems items)
  | .pair first second => "(" ++ first.inside ++ ", " ++ second.inside ++ ")"
  | .set members =>
    if members.isEmpty then "set()" else "\x7b" ++ Text.join ", " (insideItems members) ++ "\x7d"
  | .mapping entries => "\x7b" ++ Text.join ", " (insideEntries entries) ++ "\x7d"
  | .recurring shown _ => shown

def insideItems : List Value → List Text
  | [] => []
  | item :: rest => item.inside :: insideItems rest

def insideEntries : List (Value × Value) → List Text
  | [] => []
  | (key, value) :: rest => (key.inside ++ ": " ++ value.inside) :: insideEntries rest

end

mutual

/-- Whether every number in a value has few enough digits to be shown. -/
def isShowable : Value → Bool
  | .int n => n.natAbs < Nat.pow 10 Written.mostDigits
  | .list items => areShowable items
  | .pair first second => first.isShowable && second.isShowable
  | .set members => areShowable members
  | .mapping entries => entriesAreShowable entries
  | _ => true

def areShowable : List Value → Bool
  | [] => true
  | item :: rest => item.isShowable && areShowable rest

def entriesAreShowable : List (Value × Value) → Bool
  | [] => true
  | (key, value) :: rest => key.isShowable && value.isShowable && entriesAreShowable rest

end

/-- How a value is shown on its own: text as it is. -/
def shown : Value → Text
  | .text t => t
  | .moment m => m.shown
  | value => value.inside

/-- What a value holds, be it found again inside or not. -/
def content : Value → Value
  | .recurring _ content => content
  | value => value

def isTrue (value : Value) : Bool :=
  match value.content with
  | .null => false
  | .bool b => b
  | .int n => n != 0
  | .decimal x => !x.isZero
  | .text t => !t.isEmpty
  | .bytes bs => !bs.isEmpty
  | .list items => !items.isEmpty
  | .set members => !members.isEmpty
  | .mapping entries => !entries.isEmpty
  | _ => true

def isNull : Value → Bool
  | .null => true
  | _ => false

def isText : Value → Bool
  | .text _ => true
  | _ => false

def isTextEqual (t : Text) : Value → Bool
  | .text u => u == t
  | _ => false

/-- The entry under a text key. -/
def lookup? (key : Text) (entries : List (Value × Value)) : Option Value :=
  (entries.find? fun (k, _) => k.isTextEqual key).map (·.2)

/-- The numbers among values: an integer, or a truth value counted as 0 or 1. -/
def integer? : Value → Option Int
  | .int n => some n
  | .bool b => some (if b then 1 else 0)
  | _ => none

def texts? : List Value → Option (List Text)
  | [] => some []
  | .text t :: rest => (texts? rest).map (t :: ·)
  | _ :: _ => none

/-- The members of a collection: of a mapping its keys, of bytes their numbers. -/
def members? (value : Value) : Option (List Value) :=
  match value.content with
  | .list items => some items
  | .pair first second => some [first, second]
  | .set members => some members
  | .mapping entries => some (entries.map (·.1))
  | .bytes bs => some (bs.map fun b => .int b.toNat)
  | _ => none

/-- Whether two values are one key of a mapping: truth values are the numbers 0 and 1, and numbers are compared as
such. -/
def isSameKey : Value → Value → Bool
  | .null, .null => true
  | .text a, .text b => a == b
  | .bytes a, .bytes b => a == b
  | .moment a, .moment b => a.isSame b
  | .decimal a, .decimal b => a.isEqual b
  | .decimal a, b => a.integer?.isSome && a.integer? == b.integer?
  | a, .decimal b => a.integer?.isSome && a.integer? == b.integer?
  | a, b => a.integer?.isSome && a.integer? == b.integer?

end Value

end LightMarkup
