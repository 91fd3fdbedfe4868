import LightMarkup.Text.Basic

/-!
Lines of a text under every line break, and the newline as the only break of a text that is read from a file.
-/

namespace LightMarkup

namespace Text

/-- Newline, carriage return, vertical tab, form feed, three information separators, next line, and the
line and paragraph separators. -/
def isLineBreak (c : Char) : Bool :=
  let n := c.toNat
  (0x0a ≤ n && n ≤ 0x0d) || (0x1c ≤ n && n ≤ 0x1e) || n == 0x85 || n == 0x2028 || n == 0x2029

/-- The lines without their breaks. A carriage return and a newline are one break, and the last break ends
the last line instead of beginning an empty one. -/
def lines : Text → List Text
  | [] => []
  | '\r' :: '\n' :: rest => [] :: lines rest
  | c :: rest =>
    if isLineBreak c then [] :: lines rest
    else match lines rest with
      | [] => [[c]]
      | line :: others => (c :: line) :: others

/-- Each carriage return becomes a newline, together with the newline after it if there is one. -/
def withNewlines : Text → Text
  | [] => []
  | '\r' :: '\n' :: rest => '\n' :: withNewlines rest
  | c :: rest => (if c = '\r' then '\n' else c) :: withNewlines rest

end Text

end LightMarkup
