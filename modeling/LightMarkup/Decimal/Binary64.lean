import LightMarkup.Decimal.Shortest

/-!
Numbers of double precision: binary numbers with a sign, two infinities, and what is not a number.
-/

namespace LightMarkup

inductive Binary64 where
  | finite (negative : Bool) (magnitude : Binary)
  | infinite (negative : Bool)
  | notANumber
  deriving DecidableEq, Repr

namespace Binary64

def zero : Binary64 :=
  .finite false .zero

-- What is too large for a binary number is infinite.
def ofRounded (negative : Bool) : Option Binary → Binary64
  | some magnitude => .finite negative magnitude
  | none => .infinite negative

def negate : Binary64 → Binary64
  | .finite negative magnitude => .finite (!negative) magnitude
  | .infinite negative => .infinite (!negative)
  | .notANumber => .notANumber

/-- Both zeros. -/
def isZero : Binary64 → Bool
  | .finite _ magnitude => magnitude.mantissa == 0
  | _ => false

/-- The difference of two magnitudes, rounded once. Nothing is left of equal ones but a zero without a sign. -/
def difference (negative : Bool) (a b : Binary) : Binary64 :=
  let (n, d) := a.toQuotient
  let (m, e) := b.toQuotient
  if n * e = m * d then zero
  else if m * d < n * e then ofRounded negative (Binary.ofQuotient? (n * e - m * d) (d * e))
  else ofRounded (!negative) (Binary.ofQuotient? (m * d - n * e) (d * e))

def add : Binary64 → Binary64 → Binary64
  | .notANumber, _ => .notANumber
  | _, .notANumber => .notANumber
  | .infinite a, .infinite b => if a = b then .infinite a else .notANumber
  | .infinite a, .finite _ _ => .infinite a
  | .finite _ _, .infinite b => .infinite b
  | .finite a x, .finite b y => if a = b then ofRounded a (x.add? y) else difference a x y

/-- The product with a positive number. -/
def scale (factor : Binary) : Binary64 → Binary64
  | .finite negative magnitude => ofRounded negative (magnitude.times? factor)
  | x => x

/-- The integer that a number is equal to. -/
def integer? : Binary64 → Option Int
  | .finite negative magnitude =>
    let (n, d) := magnitude.toQuotient
    if n % d = 0 then some (if negative then -(n / d : Nat) else (n / d : Nat)) else none
  | _ => none

/-- Whether two numbers are equal, as the two zeros are. What is not a number equals nothing. -/
def isEqual (a b : Binary64) : Bool :=
  (a.isZero && b.isZero) || (a == b && a != .notANumber)

def text : Binary64 → Text
  | .finite negative magnitude => (if negative then ['-'] else []) ++ Decimal.text magnitude
  | .infinite negative => (if negative then "-inf" else "inf")
  | .notANumber => "nan"

end Binary64

end LightMarkup
