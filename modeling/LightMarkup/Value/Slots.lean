import LightMarkup.Value

/-!
The order in which a set shows numbers: each has a slot in a table, by its remainder, and the slots are read in turn.
Members of any other kind stay in the order in which they were given.
-/

namespace LightMarkup

namespace Slots

/-- Remainders of numbers are taken modulo this prime. -/
def prime : Nat := 2305843009213693951

-- The power of two that undoes a division by `2 ^ k`: powers of two recur after 61 steps.
def inverseOfPower (k : Nat) : Nat :=
  Nat.pow 2 (61 - k % 61)

/-- The remainder of a quotient whose denominator is a power of two. -/
def remainder (num den : Nat) : Nat :=
  num % prime * inverseOfPower den.log2 % prime

-- Minus one is taken.
def signed (negative : Bool) (n : Nat) : Int :=
  if negative then (if n = 1 then -2 else -(n : Int)) else n

def infinity : Nat := 314159

/-- The number that a member's slot is found by. -/
def key? : Value → Option Int
  | .decimal (.finite negative magnitude) =>
    let (n, d) := magnitude.toQuotient
    some (signed negative (remainder n d))
  | .decimal (.infinite negative) => some (signed negative infinity)
  | .decimal .notANumber => none
  | value => value.integer?.map fun n => signed (n < 0) (n.natAbs % prime)

/-- A table has eight slots, and more than twice as many as members if there are five or more. -/
def sizeFor (members : Nat) : (fuel : Nat) → Nat → Nat
  | 0, size => size
  | fuel + 1, size => if size ≤ 2 * members then sizeFor members fuel (2 * size) else size

def size (members : Nat) : Nat :=
  if members < 5 then 8 else sizeFor members members 8

-- A slot that is taken leads to the nine after it, where there are as many, and then to a slot further off.
def neighbours : Nat := 9

def candidates (size : Nat) : (fuel : Nat) → (slot rest : Nat) → List Nat
  | 0, _, _ => []
  | fuel + 1, slot, rest =>
    let near := if slot + neighbours < size then neighbours + 1 else 1
    let rest := rest / 32
    (List.range near).map (slot + ·) ++ candidates size fuel ((slot * 5 + 1 + rest) % size) rest

def words : Int := 18446744073709551616

/-- Put a member into the first of its slots that is free. -/
def put (table : Array (Option Value)) (entry : Value × Int) : Array (Option Value) :=
  let rest := (entry.2 % words).toNat
  match (candidates table.size (table.size + 16) (rest % table.size) rest).find? fun slot => (table.getD slot none).isNone with
  | some slot => table.setIfInBounds slot (some entry.1)
  | none => table

/-- Members in the order of a set. -/
def ordered (members : List Value) : List Value :=
  match members.mapM fun member => (key? member).map (member, ·) with
  | none => members
  | some entries =>
    (entries.foldl put (Array.replicate (size members.length) none)).toList.filterMap id

end Slots

end LightMarkup
