import LightMarkup.Text.Basic

/-!
Binary numbers of 53 digits: the nearest one to a quotient, and the quotients that are nearest to it.
-/

namespace LightMarkup

/-- The number `mantissa * 2 ^ exponent`. -/
structure Binary where
  mantissa : Nat
  exponent : Int
  deriving DecidableEq, Repr

namespace Binary

def leastExponent : Int := -1074
def largestExponent : Int := 971
def mantissaLimit : Nat := Nat.pow 2 53

def zero : Binary := ⟨0, leastExponent⟩

/-- Round to the nearest number, of two to the even one. -/
def roundedQuotient (num den : Nat) : Nat :=
  let quotient := num / den
  let twice := 2 * (num % den)
  if twice < den then quotient
  else if den < twice then quotient + 1
  else quotient + quotient % 2

/-- A quotient divided by a power of two. -/
def scaled (num den : Nat) (exponent : Int) : Nat × Nat :=
  if 0 ≤ exponent then (num, den * Nat.pow 2 exponent.toNat) else (num * Nat.pow 2 (-exponent).toNat, den)

/-- The exponent with which a quotient has 53 digits before the point, or as many as there are. -/
def exponentFor (num den : Nat) : Int :=
  let guess := max ((num.log2 : Int) - den.log2 - 53) leastExponent
  let (n, d) := scaled num den guess
  if mantissaLimit ≤ n / d then guess + 1 else guess

/-- The nearest number to `num / den`; none if that is too large. -/
def ofQuotient? (num den : Nat) : Option Binary :=
  if num = 0 then some zero
  else
    let exponent := exponentFor num den
    let (n, d) := scaled num den exponent
    let mantissa := roundedQuotient n d
    let rounded : Binary := if mantissa = mantissaLimit then ⟨mantissa / 2, exponent + 1⟩ else ⟨mantissa, exponent⟩
    if largestExponent < rounded.exponent then none else some rounded

/-- Numerator and denominator of `mantissa * 2 ^ exponent`. -/
def quotientOf (mantissa : Nat) (exponent : Int) : Nat × Nat :=
  if 0 ≤ exponent then (mantissa * Nat.pow 2 exponent.toNat, 1) else (mantissa, Nat.pow 2 (-exponent).toNat)

def toQuotient (b : Binary) : Nat × Nat :=
  quotientOf b.mantissa b.exponent

/-- The sum, rounded. -/
def add? (a b : Binary) : Option Binary :=
  let (n, d) := a.toQuotient
  let (m, e) := b.toQuotient
  ofQuotient? (n * e + m * d) (d * e)

/-- The product, rounded. -/
def times? (a b : Binary) : Option Binary :=
  let (n, d) := a.toQuotient
  let (m, e) := b.toQuotient
  ofQuotient? (n * m) (d * e)

/-- The bounds of the quotients that are rounded to a number. -/
def lowerBound (b : Binary) : Nat × Nat :=
  if b.mantissa = mantissaLimit / 2 && leastExponent < b.exponent then
    quotientOf (4 * b.mantissa - 1) (b.exponent - 2)
  else quotientOf (2 * b.mantissa - 1) (b.exponent - 1)

def upperBound (b : Binary) : Nat × Nat :=
  quotientOf (2 * b.mantissa + 1) (b.exponent - 1)

/-- Whether `num / den` is rounded to a number: it lies between the bounds, or on one of an even number. -/
def isNearestTo (b : Binary) (num den : Nat) : Bool :=
  let (l, ld) := b.lowerBound
  let (u, ud) := b.upperBound
  if b.mantissa % 2 = 0 then l * den ≤ num * ld && num * ud ≤ u * den
  else l * den < num * ld && num * ud < u * den

end Binary

end LightMarkup
