import LightMarkup.Pattern.Basic

/-!
Matching a pattern at a place of a text. A place is the text cut in two; a match is two places and the places of
its groups. Choices are tried in order and undone when what follows them fails, so `run` takes what follows
as an argument.
-/

namespace LightMarkup

/-- A text cut in two: what lies before the place, nearest character first, and what lies after it. -/
structure Cursor where
  before : Text
  after : Text
  deriving DecidableEq, Repr

namespace Cursor

def start (t : Text) : Cursor := ⟨[], t⟩

def position (c : Cursor) : Nat := c.before.length

def text (c : Cursor) : Text := c.before.reverse ++ c.after

@[inline] def next? (c : Cursor) : Option (Char × Cursor) :=
  match c.after with
  | [] => none
  | x :: rest => some (x, ⟨x :: c.before, rest⟩)

/-- The characters between two places of one text. -/
def textTo (c stop : Cursor) : Text :=
  c.after.take (stop.position - c.position)

end Cursor

/-- Where a group took part, the last time it did. -/
structure Capture where
  group : Nat
  start : Cursor
  stop : Cursor
  deriving DecidableEq, Repr

abbrev Captures := List Capture

namespace Pattern

/-- What is left to match after a place is reached. -/
abbrev Rest (α : Type) := Cursor → Captures → Option α

/-- One way to match after another: a pattern at a place, with what is left to match after it. -/
abbrev Step (α : Type) := Cursor → Captures → Rest α → Option α

def runExactly {α : Type} (step : Step α) : Nat → Step α
  | 0, c, g, rest => rest c g
  | n + 1, c, g, rest => step c g fun c g => runExactly step n c g rest

/-- As many rounds as possible, or as few if `lazily`: at most one for each item of `left`. -/
def runUpTo {α β : Type} (step : Step α) (lazily : Bool) : (left : List β) → Step α
  | [], c, g, rest => rest c g
  | _ :: left, c, g, rest =>
    if lazily then
      match rest c g with
      | some found => some found
      | none => step c g fun c g => runUpTo step lazily left c g rest
    else
      match step c g fun c g => runUpTo step lazily left c g rest with
      | some found => some found
      | none => rest c g

/-- Rounds after the first `least` ones. Where there is no limit, there are no more of them than characters, because a
round of any construct's pattern takes at least one. -/
def runRounds {α : Type} (step : Step α) (lazily : Bool) (least : Nat) (most : Option Nat) : Step α :=
  fun c g rest =>
    match most with
    | none => runUpTo step lazily c.after c g rest
    | some most => runUpTo step lazily (List.range (most - least)) c g rest

def isLineStart (c : Cursor) : Bool :=
  match c.before with
  | [] => true
  | x :: _ => x == '\n'

def isLineEnd (c : Cursor) : Bool :=
  match c.after with
  | [] => true
  | x :: _ => x == '\n'

/-- Match a pattern at a place and go on with `rest`; the first way that succeeds is the answer. -/
def run : Pattern → {α : Type} → Step α
  | .empty, _, c, g, rest => rest c g
  | .char set, _, c, g, rest =>
    match c.next? with
    | some (x, c) => if set.contains x then rest c g else none
    | none => none
  | .seq first second, _, c, g, rest => first.run c g fun c g => second.run c g rest
  | .choice first second, _, c, g, rest =>
    match first.run c g rest with
    | some found => some found
    | none => second.run c g rest
  | .repeated lazily least most body, _, c, g, rest =>
    runExactly body.run least c g fun c g => runRounds body.run lazily least most c g rest
  | .group number _ body, _, c, g, rest =>
    body.run c g fun stop g => rest stop (⟨number, c, stop⟩ :: g)
  | .ahead body, _, c, g, rest =>
    match body.run c g fun _ g => some g with
    | some g => rest c g
    | none => none
  | .notAhead body, _, c, g, rest =>
    match body.run c g fun _ g => some g with
    | some _ => none
    | none => rest c g
  | .notBehind set, _, c, g, rest =>
    match c.before with
    | [] => rest c g
    | x :: _ => if set.contains x then none else rest c g
  | .textStart, _, c, g, rest => if c.before.isEmpty then rest c g else none
  | .textEnd, _, c, g, rest => if c.after.isEmpty then rest c g else none
  | .lineStart, _, c, g, rest => if isLineStart c then rest c g else none
  | .lineEnd, _, c, g, rest => if isLineEnd c then rest c g else none
  | .lastLineEnd, _, c, g, rest => if c.after.isEmpty || c.after == ['\n'] then rest c g else none

end Pattern

end LightMarkup
