import LightMarkup.Decimal.Reading
import LightMarkup.Text.Utf8
import LightMarkup.Yaml.BlockScalar
import LightMarkup.Yaml.Plain
import LightMarkup.Yaml.Quoted

/-!
Tokens of a YAML text: marks, properties of nodes and scalars, and the brackets that indentation stands for.

Nesting is told by columns, and a key is told by the colon after it. So a token that may be a key is remembered until its
line ends, and the mark of a key is put before it once its colon comes. Until then the token is not settled: a problem
that is met first stands in its place.
-/

namespace LightMarkup

namespace Yaml

inductive Token where
  | blockSequence
  | blockMapping
  | blockEnd
  | entry
  | key
  | value
  | sequenceStart
  | sequenceEnd
  | mappingStart
  | mappingEnd
  | comma
  | anchor (name : Text)
  | reference (name : Text)
  /-- A tag in full, or a suffix for the text that its handle stands for. -/
  | tag (handle : Option Text) (suffix : Text)
  | scalar (content : Text) (plain : Bool)
  | version (major : Int)
  | tagHandle (handle start : Text)
  | otherDirective
  | documentStart
  | documentEnd
  /-- The end of what can be read, and why. -/
  | broken (problem : Problem)
  deriving DecidableEq, Repr

/-- A token that may turn out to be a key: how many tokens come before it, where it begins, and whether it stands
where only a key may. -/
structure KeyCandidate where
  tokens : Nat
  place : Place
  required : Bool
  deriving DecidableEq, Repr

/-- Tokens read so far, the last one first, and what the next ones depend on. Columns of open blocks and candidates for
keys are given innermost first; there is a candidate, or none, for every open bracket and one for the blocks around
them. -/
structure Reading where
  place : Place
  tokens : List Token
  columns : List Nat
  candidates : List (Option KeyCandidate)
  keyAllowed : Bool
  deriving DecidableEq, Repr

namespace Reading

def start (t : Text) : Reading :=
  ⟨.start t, [], [], [none], true⟩

/-- Whether a bracket is open. -/
def inFlow (r : Reading) : Bool :=
  1 < r.candidates.length

def indent (r : Reading) : Int :=
  match r.columns with
  | [] => -1
  | column :: _ => column

def emit (r : Reading) (token : Token) (place : Place) : Reading :=
  { r with tokens := token :: r.tokens, place := place }

/-- Put a token behind the first `before` ones. -/
def insert (token : Token) (before : Nat) (r : Reading) : Reading :=
  { r with tokens := r.tokens.insertIdx (r.tokens.length - before) token }

def allowKey (allowed : Bool) (r : Reading) : Reading :=
  { r with keyAllowed := allowed }

/-- Close the blocks that are indented more deeply than `column`. -/
def closeBlocks (column : Int) (r : Reading) : Reading :=
  if r.inFlow then r
  else
    let closed := r.columns.takeWhile fun (opened : Nat) => column < (opened : Int)
    { r with
      tokens := List.replicate closed.length .blockEnd ++ r.tokens
      columns := r.columns.drop closed.length }

/-- Open a block at a column that is deeper than those around it. -/
def openBlock (token : Token) (column before : Nat) (r : Reading) : Reading :=
  if r.inFlow || (column : Int) ≤ r.indent then r
  else { r.insert token before with columns := column :: r.columns }

def candidate? (r : Reading) : Option KeyCandidate :=
  r.candidates.head?.join

def setCandidate (candidate : Option KeyCandidate) (r : Reading) : Reading :=
  { r with candidates := candidate :: r.candidates.tail }

/-- Forget the innermost candidate, which must not be a required key. -/
def dropCandidate (r : Reading) : Option Reading :=
  match r.candidate? with
  | some candidate => if candidate.required then none else some (r.setCandidate none)
  | none => some r

/-- Remember that the next token may be a key. -/
def saveCandidate (r : Reading) : Option Reading :=
  if r.keyAllowed then do
    let required := !r.inFlow && r.indent == r.place.column
    let r ← r.dropCandidate
    pure (r.setCandidate (some ⟨r.tokens.length, r.place, required⟩))
  else some r

/-- The longest key without a mark of its own. -/
def longestKey : Nat := 1024

def isStale (place : Place) (candidate : KeyCandidate) : Bool :=
  candidate.place.line != place.line || longestKey < place.index - candidate.place.index

/-- Forget the candidates whose colon has not come in time. -/
def dropStale (r : Reading) : Option Reading :=
  if r.candidates.any fun given => given.any fun candidate => candidate.required && isStale r.place candidate then none
  else some { r with candidates := r.candidates.map fun given => given.filter (!isStale r.place ·) }

/-- Skip spaces, comments and blank lines. A new line outside brackets may begin with a key. -/
def skipBlank : (fuel : Nat) → Reading → Reading
  | 0, r => r
  | fuel + 1, r =>
    let p := r.place.skipSpaces
    let p := if p.rest.head? = some '#' then p.skipLine else p
    match p.takeBreak with
    | ([], _) => { r with place := p }
    | (_, q) => skipBlank fuel { r with place := q, keyAllowed := r.keyAllowed || !r.inFlow }

-- A byte order mark at the very beginning is no token.
def skipMark (r : Reading) : Reading :=
  if r.place.index = 0 && r.place.rest.head? = some '\ufeff' then { r with place := r.place.next } else r

/-- Read a mark of `count` characters. -/
def mark (token : Token) (count : Nat) (r : Reading) : Reading :=
  r.emit token (r.place.skip count)

/-- A directive or a mark of a document closes everything. -/
def betweenDocuments (r : Reading) : Option Reading := do
  let r ← (r.closeBlocks (-1)).dropCandidate
  pure (r.allowKey false)

def isNameChar (c : Char) : Bool :=
  c.isAlphanum || c == '-' || c == '_'

def isAddressChar (c : Char) : Bool :=
  c.isAlphanum || ("-;/?:@&=+$,_.!~*'()[]%" : Text).contains c

/-- A name that is not empty, and the place after it. -/
def name? (p : Place) : Option (Text × Place) :=
  let name := p.rest.takeWhile isNameChar
  if name.isEmpty then none else some (name, p.skip name.length)

/-- The handle of a tag: an exclamation mark before a space, or a name between two such marks. -/
def handle? (p : Place) : Option (Text × Place) :=
  if p.rest.drop 1 |>.head? |>.any (· == ' ') then some (['!'], p.next)
  else
    let name := (p.rest.drop 1).takeWhile isNameChar
    let p := p.skip (1 + name.length)
    if p.rest.head? = some '!' then some ('!' :: name ++ ['!'], p.next) else none

/-- Two digits after a percent sign are a byte, and bytes that stand together are characters. -/
def unescape? (bytes : List UInt8) : Text → Option Text
  | [] => Text.ofUtf8? bytes
  | '%' :: a :: b :: rest => do
    let high ← Quoted.hexDigit? a
    let low ← Quoted.hexDigit? b
    unescape? (bytes ++ [(16 * high + low).toUInt8]) rest
  | c :: rest =>
    if c = '%' then none
    else do
      let characters ← Text.ofUtf8? bytes
      let others ← unescape? [] rest
      pure (characters ++ c :: others)

def address? (p : Place) : Option (Text × Place) :=
  let address := p.rest.takeWhile isAddressChar
  if address.isEmpty then none else (unescape? [] address).map (·, p.skip address.length)

def endsProperty (p : Place) : Bool :=
  p.atBreakOrEnd || p.rest.head? = some ' '

def endsName (p : Place) : Bool :=
  endsWord p.rest || p.rest.head?.any fun c => ("?:,]\x7d%@\x60" : Text).contains c

def tag? (p : Place) : Option (Token × Place) := do
  let (token, p) ←
    if p.rest.drop 1 |>.head? |>.any (· == '<') then do
      let (suffix, p) ← address? (p.skip 2)
      if p.rest.head? = some '>' then pure (Token.tag none suffix, p.next) else none
    else if endsWord (p.rest.drop 1) then pure (Token.tag none ['!'], p.next)
    else
      let word := (p.rest.drop 1).takeWhile fun c => c != ' ' && !isBreak c
      if word.contains '!' then do
        let (handle, p) ← handle? p
        let (suffix, p) ← address? p
        pure (Token.tag (some handle) suffix, p)
      else do
        let (suffix, p) ← address? p.next
        pure (Token.tag (some ['!']) suffix, p)
  if endsProperty p then pure (token, p) else none

/-- A number in a directive, and the place after it. -/
def versionNumber (p : Place) : Except Problem (Int × Place) := do
  let digits := p.rest.takeWhile Char.isDigit
  if digits.isEmpty then throw .malformed
  let n ← orProblem .outOfRange (Written.wholeIn? 10 digits)
  pure (n, p.skip digits.length)

def versionDirective (p : Place) : Except Problem (Token × Place) := do
  let (major, p) ← versionNumber p.skipSpaces
  if p.rest.head? != some '.' then throw .malformed
  let (_, p) ← versionNumber p.next
  if endsProperty p then pure (.version major, p) else throw .malformed

def tagDirective (p : Place) : Option (Token × Place) := do
  let (handle, p) ← if p.skipSpaces.rest.head? = some '!' then handle? p.skipSpaces else none
  if p.rest.head? != some ' ' then none
  else
    let (start, p) ← address? p.skipSpaces
    if endsProperty p then pure (Token.tagHandle handle start, p) else none

/-- What a directive says, after its percent sign, up to the end of its line. -/
def directiveToken (p : Place) : Except Problem (Token × Place) := do
  let (name, p) ← orProblem .malformed (name? p)
  if !endsProperty p then throw .malformed
  let (token, p) ←
    if name = ("YAML" : Text) then versionDirective p
    else if name = ("TAG" : Text) then orProblem .malformed (tagDirective p)
    else pure (.otherDirective, p.skipLine)
  let p ← orProblem .malformed p.restOfLine
  pure (token, p)

def directive (r : Reading) : Except Problem Reading := do
  let r ← orProblem .malformed r.betweenDocuments
  let (token, p) ← directiveToken r.place.next
  pure (r.emit token p)

def openBracket (token : Token) (r : Reading) : Option Reading := do
  let r ← r.saveCandidate
  pure ({ r with candidates := none :: r.candidates, keyAllowed := true }.mark token 1)

/-- Close a bracket, if one is open. -/
def closeBracket (token : Token) (r : Reading) : Option Reading :=
  if !r.inFlow then none
  else do
    let r ← r.dropCandidate
    pure ({ r with candidates := r.candidates.tail, keyAllowed := false }.mark token 1)

def comma (r : Reading) : Option Reading := do
  let r ← r.dropCandidate
  pure ((r.allowKey true).mark .comma 1)

def entry (r : Reading) : Option Reading :=
  if !r.inFlow && !r.keyAllowed then none
  else do
    let r ← (r.openBlock .blockSequence r.place.column r.tokens.length).dropCandidate
    pure ((r.allowKey true).mark .entry 1)

/-- The mark of a key that is written as one. -/
def key (r : Reading) : Option Reading :=
  if !r.inFlow && !r.keyAllowed then none
  else do
    let r ← (r.openBlock .blockMapping r.place.column r.tokens.length).dropCandidate
    pure ((r.allowKey (!r.inFlow)).mark .key 1)

/-- A colon: the candidate, if there is one, was a key. -/
def value (r : Reading) : Option Reading :=
  match r.candidate? with
  | some candidate =>
    let r := (r.insert .key candidate.tokens).setCandidate none
    let r := r.openBlock .blockMapping candidate.place.column candidate.tokens
    some ((r.allowKey false).mark .value 1)
  | none =>
    if !r.inFlow && !r.keyAllowed then none
    else
      let r := r.openBlock .blockMapping r.place.column r.tokens.length
      some ((r.allowKey (!r.inFlow)).mark .value 1)

/-- An anchor, a reference to one, a tag or a scalar: any of them may begin a key. -/
def property (token : Token) (place : Place) (r : Reading) : Option Reading := do
  let r ← r.saveCandidate
  pure ((r.allowKey false).emit token place)

/-- How many tokens are settled: those before the outermost candidate for a key. -/
def settled (r : Reading) : Nat :=
  match (r.candidates.filterMap id).getLast? with
  | some candidate => candidate.tokens
  | none => r.tokens.length

/-- There is nothing more to be read. The problem comes right after the tokens that are settled. -/
def stop (problem : Problem) (r : Reading) : Reading :=
  { r with
    tokens := .broken problem :: r.tokens.drop (r.tokens.length - r.settled)
    place := ⟨[], r.place.line, r.place.column, r.place.index⟩ }

def quoted (double : Bool) (r : Reading) : Except Problem Reading := do
  let r ← orProblem .malformed r.saveCandidate
  let (t, p) ← quotedScalar double r.place.next
  pure ((r.allowKey false).emit (.scalar t false) p)

def block (folded : Bool) (r : Reading) : Option Reading := do
  let r ← r.dropCandidate
  let (t, p) ← blockScalar folded r.indent r.place.next
  pure ((r.allowKey true).emit (.scalar t false) p)

def plain (r : Reading) : Option Reading := do
  let (t, p, crossed) := plainScalar r.inFlow (r.indent + 1) r.place
  let r ← r.property (.scalar t true) p
  pure (r.allowKey crossed)

def plainMarks : Text := "-?:,[]\x7b\x7d#&*!|>'\"%@\x60"

/-- Whether a plain scalar may begin with `c`, given what follows. -/
def startsPlain (inFlow : Bool) (c : Char) (rest : Text) : Bool :=
  !plainMarks.contains c || (!endsWord rest && (c == '-' || (!inFlow && (c == '?' || c == ':'))))

/-- Read one token that is no directive and no quoted scalar, with the brackets and marks that come before it. -/
def token (c : Char) (rest : Text) (r : Reading) : Option Reading :=
  let p := r.place
  if p.column = 0 && isDocumentMark (c :: rest) then do
    let r ← r.betweenDocuments
    pure (r.mark (if c = '-' then .documentStart else .documentEnd) 3)
  else if c = '[' then r.openBracket .sequenceStart
  else if c = '\x7b' then r.openBracket .mappingStart
  else if c = ']' then r.closeBracket .sequenceEnd
  else if c = '\x7d' then r.closeBracket .mappingEnd
  else if c = ',' then r.comma
  else if c = '-' && endsWord rest then r.entry
  else if c = '?' && (r.inFlow || endsWord rest) then r.key
  else if c = ':' && (r.inFlow || endsWord rest) then r.value
  else if c = '*' || c = '&' then do
    let (name, p) ← name? p.next
    if endsName p then r.property (if c = '*' then .reference name else .anchor name) p else none
  else if c = '!' then do
    let (token, p) ← tag? p
    r.property token p
  else if c = '|' && !r.inFlow then r.block false
  else if c = '>' && !r.inFlow then r.block true
  else if c != '\t' && startsPlain r.inFlow c rest then r.plain
  else none

/-- Read one more token, or close all blocks at the end of the text. -/
def step (r : Reading) : Except Problem Reading := do
  let r ← orProblem .malformed (skipBlank (r.place.rest.length + 1) r.skipMark).dropStale
  let r ← match r.place.rest with
    | [] => orProblem .malformed (r.closeBlocks (-1)).dropCandidate
    | c :: rest =>
      let r := r.closeBlocks r.place.column
      if c = '%' && r.place.column = 0 then r.directive
      else if c = '\'' || c = '"' then r.quoted (c == '"')
      else orProblem .malformed (r.token c rest)
  orProblem .malformed r.dropStale

/-- Read tokens to the end of the text, or as far as possible. -/
def run : (fuel : Nat) → Reading → Reading
  | 0, r => r
  | fuel + 1, r =>
    match r.step with
    | .error problem => r.stop problem
    | .ok next =>
      if next.place.rest.isEmpty then
        match next.step with
        | .error problem => next.stop problem
        | .ok last => last
      else run fuel next

end Reading

namespace Token

/-- The tokens of a text. -/
def ofText (t : Text) : List Token :=
  (Reading.run (t.length + 1) (.start t)).tokens.reverse

end Token

end Yaml

end LightMarkup
