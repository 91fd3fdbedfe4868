import LightMarkup.Text.Half
import LightMarkup.Yaml.Place
import LightMarkup.Yaml.Problem

/-!
Quoted scalars: between apostrophes, where only an apostrophe is escaped (by another one), or between double quotes,
with escapes after backslashes. Line breaks are folded.
-/

namespace LightMarkup

namespace Yaml

/-- Spaces and line breaks whose reading depends on what follows. -/
inductive Gap where
  | none
  | spaces (t : Text)
  | breaks (first : Char) (others : Text)
  /-- Line breaks after a backslash, which hides the first of them. -/
  | hidden (others : Text)
  deriving DecidableEq, Repr

namespace Gap

def addSpace (c : Char) : Gap → Gap
  | .none => .spaces [c]
  | .spaces t => .spaces (t ++ [c])
  | gap => gap

def addBreak (c : Char) : Gap → Gap
  | .none => .breaks c []
  | .spaces _ => .breaks c []
  | .breaks first others => .breaks first (others ++ [readBreak c])
  | .hidden others => .hidden (others ++ [readBreak c])

def text : Gap → Text
  | .none => []
  | .spaces t => t
  | .breaks first others => foldBreaks first others
  | .hidden others => others

end Gap

namespace Quoted

def escapes : List (Char × Char) := [
  ('0', '\x00'), ('a', '\x07'), ('b', '\x08'), ('t', '\t'), ('\t', '\t'), ('n', '\n'), ('v', '\x0b'), ('f', '\x0c'),
  ('r', '\r'), ('e', '\x1b'), (' ', ' '), ('"', '"'), ('\\', '\\'), ('/', '/'), ('N', '\u0085'), ('_', '\u00a0'),
  ('L', '\u2028'), ('P', '\u2029')]

/-- How many hexadecimal digits follow an escape. -/
def codeLength : Char → Nat
  | 'x' => 2
  | 'u' => 4
  | 'U' => 8
  | _ => 0

def hexDigit? (c : Char) : Option Nat :=
  if '0' ≤ c && c ≤ '9' then some (c.toNat - '0'.toNat)
  else if 'a' ≤ c && c ≤ 'f' then some (c.toNat - 'a'.toNat + 10)
  else if 'A' ≤ c && c ≤ 'F' then some (c.toNat - 'A'.toNat + 10)
  else none

def hexNumber? (n : Nat) : Text → Option Nat
  | [] => some n
  | c :: rest => (hexDigit? c).bind fun digit => hexNumber? (16 * n + digit) rest

def largestCode : Nat := 0x10ffff

-- A code of 32 bits with the first of them set is not even taken for a number.
def codeProblem (n : Nat) : Problem :=
  if 0x80000000 ≤ n then .tooLarge else .outOfRange

/-- Put something before the content that is still to be read, which takes `count` characters more. -/
def after (t : Text) (count : Nat) : Except Problem (Text × Nat) → Except Problem (Text × Nat) :=
  Except.map fun (more, taken) => (t ++ more, taken + count)

/-- The content up to the closing quote, and how many characters it takes with that quote; `skip` characters have
been read already. -/
def content (double : Bool) : (skip : Nat) → Gap → Text → Except Problem (Text × Nat)
  | _, _, [] => .error .malformed
  | skip + 1, gap, _ :: rest => after [] 1 (content double skip gap rest)
  | 0, gap, c :: rest =>
    if isBreak c then
      if isDocumentMark rest then .error .malformed else after [] 1 (content double 0 (gap.addBreak c) rest)
    else if isSpace c then after [] 1 (content double 0 (gap.addSpace c) rest)
    else if c = '\'' && !double then
      if rest.head? = some '\'' then after (gap.text ++ ['\'']) 1 (content double 1 .none rest)
      else .ok (gap.text, 1)
    else if c = '"' && double then .ok (gap.text, 1)
    else if c = '\\' && double then
      match rest with
      | [] => .error .malformed
      | e :: others =>
        match escapes.lookup e with
        | some escaped => after (gap.text ++ [escaped]) 1 (content double 1 .none rest)
        | none =>
          if isBreak e then
            if isDocumentMark others then .error .malformed
            else after gap.text 1 (content double 1 (.hidden []) rest)
          else
            let length := codeLength e
            match hexNumber? 0 (others.take length) with
            | none => .error .malformed
            | some n =>
              if length = 0 || others.length < length then .error .malformed
              else if largestCode < n then .error (codeProblem n)
              else after (gap.text ++ [Text.ofCode n]) 1 (content double (1 + length) .none rest)
    else after (gap.text ++ [c]) 1 (content double 0 .none rest)

end Quoted

/-- Read a quoted scalar after its opening quote. -/
def quotedScalar (double : Bool) (p : Place) : Except Problem (Text × Place) :=
  (Quoted.content double 0 .none p.rest).map fun (t, count) => (t, p.skip count)

end Yaml

end LightMarkup
