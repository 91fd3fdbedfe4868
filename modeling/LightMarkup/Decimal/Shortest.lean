import LightMarkup.Decimal.Binary

/-!
The shortest decimal text that is read back as a given binary number: the fewest digits, of those the nearest, and of
two that are equally near the one that ends in an even digit.
-/

namespace LightMarkup

namespace Decimal

/-- A quotient divided by a power of ten. -/
def scaled (num den : Nat) (exponent : Int) : Nat × Nat :=
  if 0 ≤ exponent then (num, den * Nat.pow 10 exponent.toNat) else (num * Nat.pow 10 (-exponent).toNat, den)

/-- Numerator and denominator of `digits * 10 ^ exponent`. -/
def quotientOf (digits : Nat) (exponent : Int) : Nat × Nat :=
  if 0 ≤ exponent then (digits * Nat.pow 10 exponent.toNat, 1) else (digits, Nat.pow 10 (-exponent).toNat)

/-- The power of ten of the first digit of a quotient that is not nought. -/
def magnitude (num den : Nat) : Int :=
  let guess := ((Nat.toDigits 10 num).length : Int) - (Nat.toDigits 10 den).length
  let (n, d) := scaled num den guess
  if n < d then guess - 1 else guess

/-- Of the two multiples of `10 ^ exponent` around a number the nearer one that is rounded to it; halfway between them
the even one is the nearer. -/
def onGrid? (b : Binary) (exponent : Int) : Option Nat :=
  let (num, den) := b.toQuotient
  let (n, d) := scaled num den exponent
  let below := n / d
  let fits (digits : Nat) : Bool :=
    let (p, q) := quotientOf digits exponent
    b.isNearestTo p q
  let twice := 2 * (n % d)
  let (first, second) :=
    if twice < d || (twice == d && below % 2 == 0) then (below, below + 1) else (below + 1, below)
  if fits first then some first else if fits second then some second else none

/-- Digits and exponent, with `count` digits or more; 17 always suffice. -/
def shortestFrom (b : Binary) (magnitude : Int) : (left : Nat) → (count : Nat) → Nat × Int
  | 0, count => ((onGrid? b (magnitude + 1 - count)).getD 0, magnitude + 1 - count)
  | left + 1, count =>
    match onGrid? b (magnitude + 1 - count) with
    | some digits => (digits, magnitude + 1 - count)
    | none => shortestFrom b magnitude left (count + 1)

/-- Digits and exponent of the shortest decimal. -/
def shortest (b : Binary) : Nat × Int :=
  if b.mantissa = 0 then (0, 0)
  else
    let (num, den) := b.toQuotient
    shortestFrom b (magnitude num den) 16 1

/-- Digits without the noughts at their end. -/
def significant (digits : Nat) : Text :=
  ((Text.ofNat digits).reverse.dropWhile (· == '0')).reverse

-- Positional from 0.0001 to below 10 ^ 16.
def leastPositional : Int := -3
def largestPositional : Int := 16

def noughts (n : Int) : Text :=
  List.replicate n.toNat '0'

/-- A decimal with its point: positional, always with a digit after the point, or with an exponent of two digits or
more. -/
def written (digits : Nat) (exponent : Int) : Text :=
  if digits = 0 then "0.0"
  else
    let shown := significant digits
    let point := ((Text.ofNat digits).length : Int) + exponent
    if leastPositional ≤ point && point ≤ largestPositional then
      if point ≤ 0 then "0." ++ noughts (-point) ++ shown
      else if (shown.length : Int) ≤ point then shown ++ noughts (point - shown.length) ++ ".0"
      else shown.take point.toNat ++ "." ++ shown.drop point.toNat
    else
      let fraction : Text := if shown.length ≤ 1 then [] else '.' :: shown.drop 1
      let power := point - 1
      let sign : Char := if power < 0 then '-' else '+'
      let powerDigits := Text.ofNat power.natAbs
      shown.take 1 ++ fraction ++ ['e', sign] ++ noughts (2 - powerDigits.length) ++ powerDigits

/-- The shortest text of a number. -/
def text (b : Binary) : Text :=
  let (digits, exponent) := shortest b
  written digits exponent

end Decimal

end LightMarkup
