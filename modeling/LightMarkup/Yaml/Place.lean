import LightMarkup.Text.Basic

/-!
Places in a YAML text: what is still to be read, and where that is. Columns tell nesting, lines tell whether a key
and its colon stand together.
-/

namespace LightMarkup

namespace Yaml

/-- Newline, next line, and the line and paragraph separators. Carriage returns are newlines before a text is read. -/
def isBreak (c : Char) : Bool :=
  c == '\n' || c == '\u0085' || c == '\u2028' || c == '\u2029'

/-- What a line break is read as: the separators are kept. -/
def readBreak (c : Char) : Char :=
  if c = '\u0085' then '\n' else c

def isSpace (c : Char) : Bool :=
  c == ' ' || c == '\t'

/-- Whether a word ends before this text: at a space, a line break, or the end. -/
def endsWord : Text → Bool
  | [] => true
  | c :: _ => isSpace c || isBreak c

/-- Whether a line begins with the mark of the end of a document or of the start of the next one. -/
def isDocumentMark (t : Text) : Bool :=
  (List.isPrefixOf ("---" : Text) t || List.isPrefixOf ("..." : Text) t) && endsWord (t.drop 3)

/-- A line break between two words, and the breaks of the blank lines after it: a single newline is a space, and of
more the first one is dropped. -/
def foldBreaks (first : Char) (others : Text) : Text :=
  if readBreak first = '\n' then (if others.isEmpty then [' '] else others)
  else first :: others

structure Place where
  rest : Text
  line : Nat
  column : Nat
  index : Nat
  deriving DecidableEq, Repr

namespace Place

def start (t : Text) : Place :=
  ⟨t, 0, 0, 0⟩

-- A byte order mark takes no column.
def next (p : Place) : Place :=
  match p.rest with
  | [] => p
  | c :: rest =>
    if isBreak c then ⟨rest, p.line + 1, 0, p.index + 1⟩
    else if c = '\ufeff' then ⟨rest, p.line, p.column, p.index + 1⟩
    else ⟨rest, p.line, p.column + 1, p.index + 1⟩

def skip : Nat → Place → Place
  | 0, p => p
  | n + 1, p => skip n p.next

def skipWhile (keeps : Char → Bool) (p : Place) : Place :=
  p.skip (p.rest.takeWhile keeps).length

def skipSpaces (p : Place) : Place :=
  p.skipWhile (· == ' ')

def skipLine (p : Place) : Place :=
  p.skipWhile (!isBreak ·)

def atBreakOrEnd (p : Place) : Bool :=
  match p.rest with
  | [] => true
  | c :: _ => isBreak c

/-- The break at a place, if there is one, and the place after it. -/
def takeBreak (p : Place) : Text × Place :=
  match p.rest with
  | c :: _ => if isBreak c then ([readBreak c], p.next) else ([], p)
  | [] => ([], p)

/-- Spaces and a comment may end a line; nothing else may. -/
def restOfLine (p : Place) : Option Place :=
  let p := p.skipSpaces
  let p := if p.rest.head? = some '#' then p.skipLine else p
  if p.atBreakOrEnd then some p.takeBreak.2 else none

end Place

end Yaml

end LightMarkup
