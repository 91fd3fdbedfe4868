import LightMarkup.Text.Half
import LightMarkup.Text.Printable

/-!
Quoted text, as messages show it: between apostrophes, or between double quotes where that saves escapes.
-/

namespace LightMarkup

namespace Text

/-- The quote that needs no escape; an apostrophe if both or neither occur. -/
def quoteFor (t : Text) : Char :=
  if t.contains '\'' && !t.contains '"' then '"' else '\''

def quotedChar (quote : Char) (c : Char) : Text :=
  if c = quote || c = '\\' then ['\\', c]
  else if c = '\n' then "\\n"
  else if c = '\r' then "\\r"
  else if c = '\t' then "\\t"
  else if isPrintable c then [c]
  else if code c < 0x100 then "\\x" ++ ofHex 2 (code c)
  else if code c < 0x10000 then "\\u" ++ ofHex 4 (code c)
  else "\\U" ++ ofHex 8 (code c)

def quoted (t : Text) : Text :=
  let quote := quoteFor t
  quote :: t.flatMap (quotedChar quote) ++ [quote]

/-- Bytes in quotes: the characters of ASCII as they are, and any other byte by its number. -/
def quotedBytes (bytes : List UInt8) : Text :=
  let quote := quoteFor (bytes.map fun b => Char.ofNat b.toNat)
  'b' :: quote :: (bytes.flatMap fun b =>
    if b < 0x7f then quotedChar quote (Char.ofNat b.toNat) else "\\x" ++ ofHex 2 b.toNat) ++ [quote]

/-- Items between square brackets. -/
def bracketed (items : List Text) : Text :=
  "[" ++ join ", " items ++ "]"

def quotedOrNone : Option Text → Text
  | none => "None"
  | some t => quoted t

def quotedList (ts : List Text) : Text :=
  bracketed (ts.map quoted)

end Text

end LightMarkup
