import LightMarkup.Decimal.Reading
import LightMarkup.Text.Base64
import LightMarkup.Value
import LightMarkup.Yaml.Problem
import LightMarkup.Yaml.Tag

/-!
Values of scalars: integers to four bases and in sixtieths, numbers with a fraction, truth values, dates and times.
-/

namespace LightMarkup

namespace Yaml

namespace Scalar

def sixty : Nat := 60

def withoutLines (t : Text) : Text :=
  t.filter (· != '_')

/-- An integer behind its sign: the beginning tells the base, and of parts between colons each is worth sixty of the
next. -/
def whole? (t : Text) : Option Int :=
  match t with
  | ['0'] => some 0
  | '0' :: 'b' :: digits => Written.wholeIn? 2 digits
  | '0' :: 'x' :: digits => Written.wholeIn? 16 digits
  | '0' :: _ => Written.wholeIn? 8 t
  | _ => (Text.splitAtChar ':' t).foldlM (fun n part => (Written.wholeIn? 10 part).map (n * sixty + ·)) 0

def integer (t : Text) : Except Problem Int :=
  let (negative, digits) := Written.splitSign (withoutLines t)
  if digits.isEmpty then .error .noDigits
  else orProblem .outOfRange ((whole? digits).map fun n => if negative then -n else n)

/-- The sum of parts that are worth more and more. Every step is rounded; what a part is worth must not be too large
for that. -/
def sumOfSixtieths : (worth : Nat) → Binary64 → List Binary64 → Except Problem Binary64
  | _, sum, [] => .ok sum
  | worth, sum, part :: parts =>
    match Binary.ofQuotient? worth 1 with
    | none => .error .tooLarge
    | some factor => sumOfSixtieths (worth * sixty) (sum.add (part.scale factor)) parts

/-- The sign of a number, and the rest of it in small letters. -/
def signAndRest (t : Text) : Bool × Text :=
  Written.splitSign ((withoutLines t).map Char.toLower)

def decimal (t : Text) : Except Problem Binary64 :=
  if (withoutLines t).isEmpty then .error .noDigits
  else
    let (negative, digits) := signAndRest t
    let signed (x : Binary64) : Binary64 := if negative then x.negate else x
    if digits = ".inf" then .ok (signed (.infinite false))
    else if digits = ".nan" then .ok .notANumber
    else
      match (Text.splitAtChar ':' digits).mapM Binary64.ofText? with
      | none => .error .outOfRange
      | some [x] => .ok (signed x)
      | some parts => (sumOfSixtieths 1 .zero parts.reverse).map signed

/-- Whether the text is the word for what is no number. All of these are one and the same, and no other is. -/
def isNamedNotANumber (t : Text) : Bool :=
  (signAndRest t).2 = ".nan"

def yesOrNo (t : Text) : Except Problem Bool :=
  let word := t.map Char.toLower
  if ([("yes" : Text), ("true" : Text), ("on" : Text)]).contains word then .ok true
  else if ([("no" : Text), ("false" : Text), ("off" : Text)]).contains word then .ok false
  else .error .unknownWord

def natural (t : Text) : Nat :=
  (Text.decimalNumber? t).getD 0

/-- Millionths of a second; further digits are dropped. -/
def millionthsOf (fraction : Text) : Nat :=
  natural ((fraction ++ "000000").take 6)

/-- The offset behind a time, in minutes: `Z` is none, and a time without an offset has no such thing. -/
def offsetOf (m : Match) : Option Int :=
  match m.group? 8 with
  | some sign =>
    let minutes : Int := natural (m.group 9) * sixty + natural (m.group 10)
    some (if sign = ['-'] then -minutes else minutes)
  | none => (m.group? 11).map fun _ => 0

/-- The time behind a date, if there is one. -/
def timeOf (m : Match) : Option Time :=
  (m.group? 4).map fun hour =>
    { hour := natural hour, minute := natural (m.group 5), second := natural (m.group 6)
      millionths := millionthsOf (m.group 7), offset := offsetOf m }

/-- A date, or a date and a time, if there is such a one. -/
def moment (t : Text) : Except Problem Moment :=
  match Tag.find? Tag.momentPattern t with
  | none => .error .notMoment
  | some m =>
    let found : Moment := ⟨⟨natural (m.group 1), natural (m.group 2), natural (m.group 3)⟩, timeOf m⟩
    if found.isValid then .ok found else .error .outOfRange

/-- Bytes in base 64, in characters of ASCII alone. -/
def binary (t : Text) : Except Problem (List UInt8) :=
  if t.all fun c => c.toNat < 0x80 then orProblem .malformed (Text.ofLooseBase64? 0 0 0 t) else .error .malformed

/-- The value of a scalar under a tag. -/
def value (tag : Tag) (t : Text) : Except Problem Value :=
  match tag with
  | .null => .ok .null
  | .bool => (yesOrNo t).map .bool
  | .int => (integer t).map .int
  | .float => (decimal t).map .decimal
  | .moment => (moment t).map .moment
  | .text => .ok (.text t)
  | .binary => (binary t).map .bytes
  | _ => .error .malformed

end Scalar

end Yaml

end LightMarkup
