import LightMarkup.Decimal.Binary64
import LightMarkup.Text.Blank
import LightMarkup.Text.Digit

/-!
Numbers as they are written: whole numbers to a base, and numbers with a point and an exponent. Blanks may stand around
a number, a sign before it, and digits may be those of any script.
-/

namespace LightMarkup

namespace Written

/-- Blanks that may stand around a number: of the ASCII ones only spaces, tabs and the breaks of lines and pages. -/
def isBlank (c : Char) : Bool :=
  let n := c.toNat
  n == 0x20 || (0x09 ≤ n && n ≤ 0x0d) || (0x80 ≤ n && Text.isBlank c)

def trim (t : Text) : Text :=
  ((t.dropWhile isBlank).reverse.dropWhile isBlank).reverse

/-- The digits behind a sign, and whether the sign is negative. -/
def splitSign : Text → Bool × Text
  | '-' :: rest => (true, rest)
  | '+' :: rest => (false, rest)
  | t => (false, t)

def letterValue? (c : Char) : Option Nat :=
  if 'a' ≤ c && c ≤ 'z' then some (c.toNat - 'a'.toNat + 10)
  else if 'A' ≤ c && c ≤ 'Z' then some (c.toNat - 'A'.toNat + 10)
  else none

/-- Decimal digits, and letters for the digits from ten on. -/
def digitValue? (c : Char) : Option Nat :=
  (Text.decimalValue? c).or (letterValue? c)

/-- The number written by digits of a base, of which there must be one. -/
def naturalIn? (base : Nat) (t : Text) : Option Nat :=
  if t.isEmpty then none
  else t.foldlM
    (fun n c => (digitValue? c).bind fun digit => if digit < base then some (n * base + digit) else none) 0

/-- The letter that may stand behind a zero to tell the base. -/
def baseLetter? (base : Nat) : Option Char :=
  if base = 2 then some 'b'
  else if base = 8 then some 'o'
  else if base = 16 then some 'x'
  else none

def dropBaseMark (base : Nat) (t : Text) : Text :=
  match t with
  | zero :: c :: rest => if digitValue? zero = some 0 && baseLetter? base = some c.toLower then rest else t
  | _ => t

-- To base ten a number is neither read nor shown with more digits than this.
def mostDigits : Nat := 4300

def wholeIn? (base : Nat) (t : Text) : Option Int :=
  let (negative, digits) := splitSign (trim t)
  let digits := dropBaseMark base digits
  if base = 10 && mostDigits < digits.length then none
  else (naturalIn? base digits).map fun n => if negative then -(n : Int) else n

/-- The number of decimal digits, leading zeros left out. -/
def length (n : Nat) : Nat :=
  if n = 0 then 0 else (Nat.toDigits 10 n).length

-- Beyond these powers of ten every number is infinite, or zero.
def largestPower : Int := 400

/-- The number `digits * 10 ^ power`, rounded. -/
def ofDecimal (negative : Bool) (digits : Nat) (power : Int) : Binary64 :=
  let magnitude := power + length digits
  if digits = 0 || magnitude < -largestPower then .finite negative .zero
  else if largestPower < magnitude then .infinite negative
  else
    let (num, den) := Decimal.quotientOf digits power
    .ofRounded negative (Binary.ofQuotient? num den)

/-- The exponent at the end of a number: nought if nothing is there. -/
def exponent? : Text → Option Int
  | [] => some 0
  | e :: rest =>
    if e = 'e' || e = 'E' then
      let (negative, digits) := splitSign rest
      (naturalIn? 10 digits).map fun n => if negative then -(n : Int) else n
    else none

def isDecimalDigit (c : Char) : Bool :=
  (Text.decimalValue? c).isSome

/-- Digits with a point among them, or without one, and an exponent. -/
def finite? (negative : Bool) (t : Text) : Option Binary64 := do
  let whole := t.takeWhile isDecimalDigit
  let rest := t.drop whole.length
  let (fraction, rest) := match rest with
    | '.' :: rest => (rest.takeWhile isDecimalDigit, rest.dropWhile isDecimalDigit)
    | rest => ([], rest)
  let digits ← naturalIn? 10 (whole ++ fraction)
  let power ← exponent? rest
  pure (ofDecimal negative digits (power - fraction.length))

end Written

namespace Binary64

/-- The nearest number to a decimal, or one of the words for what is no decimal. -/
def ofText? (t : Text) : Option Binary64 :=
  let (negative, rest) := Written.splitSign (Written.trim t)
  let word := rest.map Char.toLower
  if word = "inf" || word = "infinity" then some (.infinite negative)
  else if word = "nan" then some .notANumber
  else Written.finite? negative rest

end Binary64

end LightMarkup
