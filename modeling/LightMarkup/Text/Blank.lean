import LightMarkup.Text.Basic

/-!
Blank characters, and what is done with them at the ends of a text and between its words.
-/

namespace LightMarkup

namespace Text

/-- Spaces of every width, tabs, line and paragraph separators, and the four information separators. -/
def isBlank (c : Char) : Bool :=
  let n := c.toNat
  (0x09 ≤ n && n ≤ 0x0d) || (0x1c ≤ n && n ≤ 0x20) || n == 0x85 || n == 0xa0 || n == 0x1680
    || (0x2000 ≤ n && n ≤ 0x200a) || n == 0x2028 || n == 0x2029 || n == 0x202f || n == 0x205f || n == 0x3000

def trimStart (t : Text) : Text :=
  t.dropWhile isBlank

def trimEnd (t : Text) : Text :=
  (t.reverse.dropWhile isBlank).reverse

def trim (t : Text) : Text :=
  trimEnd (trimStart t)

def isAllBlank (t : Text) : Bool :=
  t.all isBlank

/-- The word a text begins with, then the words after the blank that ends it. -/
def wordsWith : Text → Text × List Text
  | [] => ([], [])
  | c :: rest =>
    let (word, others) := wordsWith rest
    if isBlank c then ([], if word.isEmpty then others else word :: others)
    else (c :: word, others)

/-- The longest runs of characters that are not blank. -/
def words (t : Text) : List Text :=
  let (word, others) := wordsWith t
  if word.isEmpty then others else word :: others

end Text

end LightMarkup
