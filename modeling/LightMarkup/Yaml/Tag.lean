import LightMarkup.Pattern.Search

/-!
Tags: what a node is read as, by its tag or by the form of its content.
-/

namespace LightMarkup

namespace Yaml

inductive Tag where
  | null
  | bool
  | int
  | float
  | moment
  | text
  | binary
  | sequence
  | mapping
  | set
  /-- Entries in their order, under keys that may come again. -/
  | pairs
  /-- Entries to be merged into a mapping. -/
  | merge
  /-- The standard value of a mapping. -/
  | standard
  /-- A tag that nothing can be read by. -/
  | unknown (name : Text)
  deriving DecidableEq, Repr

namespace Tag

open Pattern

def coreStart : Text := "tag:yaml.org,2002:"

/-- The tags that have a name of their own, without the beginning that they share. -/
def coreTags : List (Text × Tag) := [
  ("null", .null), ("bool", .bool), ("int", .int), ("float", .float), ("timestamp", .moment), ("str", .text),
  ("binary", .binary), ("seq", .sequence), ("map", .mapping), ("set", .set), ("omap", .pairs), ("pairs", .pairs),
  ("merge", .merge), ("value", .standard)]

def ofName (name : Text) : Tag :=
  if List.isPrefixOf coreStart name then (coreTags.lookup (name.drop coreStart.length)).getD (.unknown name)
  else .unknown name

/-- Collections are no keys. -/
def isCollection : Tag → Bool
  | .sequence | .mapping | .set | .pairs => true
  | _ => false

/-- Whether a value can be read from a text under this tag. -/
def isScalar : Tag → Bool
  | .merge | .standard | .unknown _ => false
  | tag => !tag.isCollection

def sign : Pattern := maybe (.char (CharSet.anyOf "+-"))
def digit : Pattern := .char (.range '0' '9')
def digitOrLine : Pattern := .char (.range '0' '9' ∪ .one '_')
def upToTwoDigits : Pattern := digit ++ maybe digit

/-- Digits after a colon, as of minutes or seconds. -/
def sixtieths : Pattern :=
  literal ":" ++ maybe (.char (.range '0' '5')) ++ digit

def anyOfWords (words : List Text) : Pattern :=
  firstOf (words.map literal)

def nullPattern : Pattern :=
  anyOfWords ["~", "null", "Null", "NULL"]

def boolPattern : Pattern :=
  anyOfWords [
    "yes", "Yes", "YES", "no", "No", "NO", "true", "True", "TRUE", "false", "False", "FALSE", "on", "On", "ON", "off",
    "Off", "OFF"]

/-- Binary, octal, decimal, hexadecimal, or to the base of sixty. -/
def intPattern : Pattern :=
  sign ++ firstOf [
    literal "0b" ++ plus (.char (CharSet.anyOf "01_")),
    literal "0x" ++ plus (.char (.range '0' '9' ∪ .range 'a' 'f' ∪ .range 'A' 'F' ∪ .one '_')),
    literal "0" ++ plus (.char (.range '0' '7' ∪ .one '_')),
    literal "0",
    .char (.range '1' '9') ++ many digitOrLine ++ many sixtieths]

def exponent : Pattern :=
  .char (CharSet.anyOf "eE") ++ .char (CharSet.anyOf "+-") ++ plus digit

def floatPattern : Pattern :=
  firstOf [
    sign ++ digit ++ many digitOrLine ++ literal "." ++ many digitOrLine ++ maybe exponent,
    literal "." ++ digit ++ many digitOrLine ++ maybe exponent,
    sign ++ digit ++ many digitOrLine ++ plus sixtieths ++ literal "." ++ many digitOrLine,
    sign ++ anyOfWords [".inf", ".Inf", ".INF"],
    anyOfWords [".nan", ".NaN", ".NAN"]]

/-- A date, which may be followed by a time, a fraction of a second and an offset. Their numbers are captured in
order, a sign before the offset among them, or a `Z` instead. -/
def momentPattern : Pattern :=
  captured 1 (exactly 4 digit) ++ literal "-" ++ captured 2 upToTwoDigits ++ literal "-" ++ captured 3 upToTwoDigits
    ++ maybe ((.char (CharSet.anyOf "Tt") <|> plus (.char (CharSet.anyOf " \t"))) ++ captured 4 upToTwoDigits
      ++ literal ":" ++ captured 5 (exactly 2 digit) ++ literal ":" ++ captured 6 (exactly 2 digit)
      ++ maybe (literal "." ++ captured 7 (many digit))
      ++ maybe (many (.char (CharSet.anyOf " \t"))
        ++ (captured 11 (literal "Z")
          <|> (captured 8 (.char (CharSet.anyOf "+-")) ++ captured 9 upToTwoDigits
            ++ maybe (literal ":" ++ captured 10 (exactly 2 digit))))))

def plainDatePattern : Pattern :=
  exactly 4 digit ++ literal "-" ++ exactly 2 digit ++ literal "-" ++ exactly 2 digit

/-- A match of a whole text, or of all of it but a newline at its end. -/
def find? (p : Pattern) (t : Text) : Option Match :=
  (p ++ .lastLineEnd).matchStart? t

def fits (p : Pattern) (t : Text) : Bool :=
  (find? p t).isSome

/-- A date alone has two digits for the month and the day. -/
def isMoment (t : Text) : Bool :=
  fits plainDatePattern t || (t.contains ':' && fits momentPattern t)

/-- What a scalar without quotes is read as. -/
def ofContent (t : Text) : Tag :=
  if t.isEmpty then .null
  else if fits boolPattern t then .bool
  else if fits floatPattern t then .float
  else if fits intPattern t then .int
  else if fits (literal "<<") t then .merge
  else if fits nullPattern t then .null
  else if isMoment t then .moment
  else if fits (literal "=") t then .standard
  else if fits (.char (CharSet.anyOf "!&*")) t then .unknown (coreStart ++ "yaml")
  else .text

end Tag

end Yaml

end LightMarkup
