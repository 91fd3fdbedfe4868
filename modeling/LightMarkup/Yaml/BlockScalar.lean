import LightMarkup.Yaml.Place

/-!
Block scalars: the indented lines after a bar, kept as they are, or after an angle, folded. A sign says what becomes of
the line breaks at the end, a digit how deep the indentation is.
-/

namespace LightMarkup

namespace Yaml

/-- What becomes of the line breaks at the end: one is kept, none, or all. -/
inductive Ending where
  | clip
  | strip
  | keep
  deriving DecidableEq, Repr

namespace BlockScalar

def endingOf? : Char → Option Ending
  | '+' => some .keep
  | '-' => some .strip
  | _ => none

/-- The digit that tells the indentation; nought is none. -/
def depthOf? (c : Char) : Option Nat :=
  if '1' ≤ c && c ≤ '9' then some (c.toNat - '0'.toNat) else none

/-- A sign and a digit in any order, each of which may be missing. -/
def header (p : Place) : Ending × Option Nat × Place :=
  match p.rest with
  | [] => (.clip, none, p)
  | c :: rest =>
    match endingOf? c, depthOf? c with
    | some ending, _ =>
      match rest.head?.bind depthOf? with
      | some depth => (ending, some depth, p.skip 2)
      | none => (ending, none, p.next)
    | none, some depth =>
      match rest.head?.bind endingOf? with
      | some ending => (ending, some depth, p.skip 2)
      | none => (.clip, some depth, p.next)
    | none, none => (.clip, none, p)

/-- Blank lines and the spaces before the first line that is not: the breaks, how many characters, and the deepest
column. -/
def leadingLines (column deepest : Nat) : Text → Text × Nat × Nat
  | [] => ([], 0, deepest)
  | c :: rest =>
    if c = ' ' then
      let (breaks, count, deepest) := leadingLines (column + 1) (max deepest (column + 1)) rest
      (breaks, count + 1, deepest)
    else if isBreak c then
      let (breaks, count, deepest) := leadingLines 0 deepest rest
      (readBreak c :: breaks, count + 1, deepest)
    else ([], 0, deepest)

/-- Blank lines, and spaces up to column `indent`: the breaks, and how many characters. -/
def blankLines (indent column : Nat) : Text → Text × Nat
  | [] => ([], 0)
  | c :: rest =>
    if c = ' ' && column < indent then
      let (breaks, count) := blankLines indent (column + 1) rest
      (breaks, count + 1)
    else if isBreak c then
      let (breaks, count) := blankLines indent 0 rest
      (readBreak c :: breaks, count + 1)
    else ([], 0)

def takeBlankLines (indent : Nat) (p : Place) : Text × Place :=
  let (breaks, count) := blankLines indent p.column p.rest
  (breaks, p.skip count)

def beginsWithSpace : Text → Bool
  | [] => false
  | c :: _ => isSpace c

/-- What stands between two lines: folding makes one space of a single newline between lines that do not begin with
a space. -/
def between (folded : Bool) (line lineBreak breaks next : Text) : Text :=
  if folded && lineBreak == ['\n'] && !beginsWithSpace line && !beginsWithSpace next then
    (if breaks.isEmpty then [' '] else [])
  else lineBreak

/-- The lines, the last line break, and the breaks after it; `before` are the breaks before the first line. -/
def lines (folded : Bool) (indent : Nat) : (fuel : Nat) → (before : Text) → Place → Text × Text × Text × Place
  | 0, before, p => ([], [], before, p)
  | fuel + 1, before, p =>
    if p.column = indent && !p.rest.isEmpty then
      let line := p.rest.takeWhile (!isBreak ·)
      let (lineBreak, q) := (p.skip line.length).takeBreak
      let (breaks, q) := takeBlankLines indent q
      if q.column = indent && !q.rest.isEmpty then
        let (more, last, after, q') := lines folded indent fuel breaks q
        (before ++ line ++ between folded line lineBreak breaks q.rest ++ more, last, after, q')
      else (before ++ line, lineBreak, breaks, q)
    else ([], [], before, p)

def withEnding (ending : Ending) (t last after : Text) : Text :=
  match ending with
  | .clip => t ++ last
  | .strip => t
  | .keep => t ++ last ++ after

end BlockScalar

open BlockScalar in
/-- Read a block scalar after its bar or angle, inside an indentation of `indent`. -/
def blockScalar (folded : Bool) (indent : Int) (p : Place) : Option (Text × Place) := do
  let (ending, depth, p) := header p
  let p ← if p.atBreakOrEnd || p.rest.head? = some ' ' then p.restOfLine else none
  let least := (max (indent + 1) 1).toNat
  let (before, column, p) := match depth with
    | some depth =>
      let column := least + depth - 1
      let (before, p) := takeBlankLines column p
      (before, column, p)
    | none =>
      let (before, count, deepest) := leadingLines p.column 0 p.rest
      (before, max least deepest, p.skip count)
  let (t, last, after, p) := lines folded column p.rest.length before p
  pure (withEnding ending t last after, p)

end Yaml

end LightMarkup
