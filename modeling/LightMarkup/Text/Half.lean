import LightMarkup.Text.Basic

/-!
Halves of characters. Two codes in a row may name one character; each of them alone names none. An escape can leave a
half in a text, and since no character is one, a character for private use stands for it.
-/

namespace LightMarkup

namespace Text

def isHalfCode (n : Nat) : Bool :=
  0xd800 ≤ n && n < 0xe000

-- What is added to the code of a half.
def halfBase : Nat := 0x100000

/-- The character of a code, or what stands for a half. -/
def ofCode (n : Nat) : Char :=
  Char.ofNat (if isHalfCode n then halfBase + n else n)

def isHalf (c : Char) : Bool :=
  halfBase ≤ c.toNat && isHalfCode (c.toNat - halfBase)

def code (c : Char) : Nat :=
  if isHalf c then c.toNat - halfBase else c.toNat

def isFirstHalf (c : Char) : Bool :=
  0xd800 ≤ code c && code c < 0xdc00

def isSecondHalf (c : Char) : Bool :=
  0xdc00 ≤ code c && code c < 0xe000

/-- A character as codes of sixteen bits take it: as it is, or in two halves. -/
def halves (c : Char) : Text :=
  if c.toNat < 0x10000 || isHalf c then [c]
  else [ofCode (0xd800 + (c.toNat - 0x10000) / 0x400), ofCode (0xdc00 + (c.toNat - 0x10000) % 0x400)]

/-- Put halves together where two in a row name a character. -/
def joinHalves : Text → Text
  | a :: b :: rest =>
    if isFirstHalf a && isSecondHalf b then
      Char.ofNat (0x10000 + (code a - 0xd800) * 0x400 + (code b - 0xdc00)) :: joinHalves rest
    else a :: joinHalves (b :: rest)
  | t => t

end Text

end LightMarkup
