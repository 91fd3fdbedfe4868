import LightMarkup.Text.Blank
import LightMarkup.Text.Digit
import LightMarkup.Text.Word

/-!
Sets of characters, the leaves of a pattern.
-/

namespace LightMarkup

inductive CharSet where
  | all
  | one (c : Char)
  | range (first last : Char)
  | word
  | blank
  | decimal
  | union (a b : CharSet)
  | complement (a : CharSet)
  deriving DecidableEq, Repr

namespace CharSet

def contains : CharSet → Char → Bool
  | .all, _ => true
  | .one c, x => x == c
  | .range first last, x => first ≤ x && x ≤ last
  | .word, x => Text.isWord x
  | .blank, x => Text.isBlank x
  | .decimal, x => Text.isDecimal x
  | .union a b, x => a.contains x || b.contains x
  | .complement a, x => !a.contains x

/-- One of the characters of a text. -/
def anyOf : Text → CharSet
  | [] => .complement .all
  | [c] => .one c
  | c :: rest => .union (.one c) (anyOf rest)

def noneOf (t : Text) : CharSet :=
  .complement (anyOf t)

instance : Union CharSet := ⟨union⟩

def wordOrHyphen : CharSet :=
  .word ∪ .one '-'

def letter : CharSet :=
  .range 'a' 'z' ∪ .range 'A' 'Z'

-- Blanks that stay on their line and are typed: the space and the tab.
def gap : CharSet :=
  .one ' ' ∪ .one '\t'

def notNewline : CharSet :=
  .complement (.one '\n')

/-- A letter of either case. -/
def eitherCase (c : Char) : CharSet :=
  .one c.toLower ∪ .one c.toUpper

end CharSet

end LightMarkup
