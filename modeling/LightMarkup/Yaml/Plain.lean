import LightMarkup.Yaml.Place

/-!
Plain scalars: text without quotes. It goes on over lines that are indented deeply enough, and ends before a colon or
a comment that stands apart.
-/

namespace LightMarkup

namespace Yaml

namespace Plain

def isFlowMark (c : Char) : Bool :=
  c == ',' || c == '[' || c == ']' || c == '\x7b' || c == '\x7d'

/-- Whether a colon before this text ends a scalar. -/
def endsBeforeColon (inFlow : Bool) : Text → Bool
  | [] => true
  | c :: rest => endsWord (c :: rest) || (inFlow && isFlowMark c)

/-- The characters up to a space, a break or a mark. -/
def word (inFlow : Bool) : Text → Text
  | [] => []
  | c :: rest =>
    if isSpace c || isBreak c then []
    else if c = ':' && endsBeforeColon inFlow rest then []
    else if inFlow && (isFlowMark c || c == '?') then []
    else c :: word inFlow rest

/-- Blank lines and indentation after a line break: the breaks, how many characters they take, and whether a
document's mark follows one of them. -/
def blankLines : Text → Text × Nat × Bool
  | [] => ([], 0, false)
  | c :: rest =>
    if c = ' ' then
      let (breaks, count, marked) := blankLines rest
      (breaks, count + 1, marked)
    else if isBreak c then
      if isDocumentMark rest then ([], 1, true)
      else
        let (breaks, count, marked) := blankLines rest
        (readBreak c :: breaks, count + 1, marked)
    else ([], 0, false)

/-- What separates one word from the next: the text that it is read as, the place after it, and whether there is a line
break in it. Before a document's mark it is nothing. -/
def gap (p : Place) : Text × Place × Bool :=
  let spaces := p.rest.takeWhile (· == ' ')
  let p := p.skip spaces.length
  match p.rest with
  | [] => (spaces, p, false)
  | c :: rest =>
    if isBreak c then
      let p := p.next
      if isDocumentMark rest then ([], p, true)
      else
        let (breaks, count, marked) := blankLines rest
        (if marked then [] else foldBreaks c breaks, p.skip count, true)
    else (spaces, p, false)

/-- The words of a scalar; `before` is the gap before the next one, with a line break in it if `crossed`. -/
def words (inFlow : Bool) (indent : Int) : (fuel : Nat) → (before : Text) → (crossed : Bool) → Place → Text × Place × Bool
  | 0, _, crossed, p => ([], p, crossed)
  | fuel + 1, before, crossed, p =>
    let w := word inFlow p.rest
    if w.isEmpty || p.rest.head? = some '#' then ([], p, crossed)
    else
      let (after, q, crosses) := gap (p.skip w.length)
      if after.isEmpty || q.rest.head? = some '#' || (!inFlow && q.column < indent) then (before ++ w, q, crosses)
      else
        let (more, q, crosses) := words inFlow indent fuel after crosses q
        (before ++ w ++ more, q, crosses)

end Plain

/-- Read a plain scalar: its content, the place after it, and whether that is on a new line. -/
def plainScalar (inFlow : Bool) (indent : Int) (p : Place) : Text × Place × Bool :=
  Plain.words inFlow indent p.rest.length [] false p

end Yaml

end LightMarkup
