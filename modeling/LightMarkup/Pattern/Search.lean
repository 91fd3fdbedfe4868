import LightMarkup.Pattern.Match

/-!
Where a pattern occurs in a text: the first occurrence, all of them from left to right, and what splitting and
replacing make of them. Occurrences never overlap, and only `findAll` reports empty ones.
-/

namespace LightMarkup

/-- One occurrence of a pattern. -/
structure Match where
  start : Cursor
  stop : Cursor
  captures : Captures
  deriving DecidableEq, Repr

namespace Match

def text (m : Match) : Text := m.start.textTo m.stop

def length (m : Match) : Nat := m.stop.position - m.start.position

def span (m : Match) : Nat × Nat := (m.start.position, m.stop.position)

/-- The places of a group; the whole occurrence for group 0. -/
def capture? (m : Match) (group : Nat) : Option Capture :=
  if group = 0 then some ⟨0, m.start, m.stop⟩
  else m.captures.find? fun capture => capture.group == group

def groupSpan? (m : Match) (group : Nat) : Option (Nat × Nat) :=
  (m.capture? group).map fun capture => (capture.start.position, capture.stop.position)

def group? (m : Match) (group : Nat) : Option Text :=
  (m.capture? group).map fun capture => capture.start.textTo capture.stop

/-- A group's text, empty if it took no part. -/
def group (m : Match) (group : Nat) : Text :=
  (m.group? group).getD []

end Match

namespace Pattern

def matchAt? (p : Pattern) (c : Cursor) : Option Match :=
  p.run c [] fun stop g => some ⟨c, stop, g⟩

-- The preferred one of the matches that take at least one character.
def matchSomeAt? (p : Pattern) (c : Cursor) : Option Match :=
  p.run c [] fun stop g => if stop.after.length < c.after.length then some ⟨c, stop, g⟩ else none

def matchStart? (p : Pattern) (t : Text) : Option Match :=
  p.matchAt? (.start t)

/-- The preferred one of the matches that take the whole text. -/
def fullMatch? (p : Pattern) (t : Text) : Option Match :=
  p.run (.start t) [] fun stop g => if stop.after.isEmpty then some ⟨.start t, stop, g⟩ else none

/-- The first place, from left to right, where `attempt` succeeds. -/
def searchFrom? (attempt : Cursor → Option Match) (before : Text) : Text → Option Match
  | [] => attempt ⟨before, []⟩
  | x :: rest =>
    match attempt ⟨before, x :: rest⟩ with
    | some m => some m
    | none => searchFrom? attempt (x :: before) rest

def search? (p : Pattern) (t : Text) : Option Match :=
  searchFrom? p.matchAt? [] t

/-- From left to right, what `attempt` finds outside the places already taken; `skip` characters still belong to the
last find, whose length `lengthOf` tells. -/
def scanFrom {α : Type} (lengthOf : α → Nat) (attempt : Cursor → Option α) (before : Text) : Nat → Text → List α
  | 0, [] => (attempt ⟨before, []⟩).toList
  | _ + 1, [] => []
  | 0, x :: rest =>
    match attempt ⟨before, x :: rest⟩ with
    | some found => found :: scanFrom lengthOf attempt (x :: before) (lengthOf found - 1) rest
    | none => scanFrom lengthOf attempt (x :: before) 0 rest
  | skip + 1, x :: rest => scanFrom lengthOf attempt (x :: before) skip rest

def scan {α : Type} (lengthOf : α → Nat) (attempt : Cursor → Option α) (t : Text) : List α :=
  scanFrom lengthOf attempt [] 0 t

/-- The occurrences that take at least one character. -/
def occurrences (p : Pattern) (t : Text) : List Match :=
  scan Match.length p.matchSomeAt? t

-- An empty match is reported and then tried again for one that is not empty at the same place.
def findAllFrom (p : Pattern) (before : Text) : Nat → Text → List Match
  | 0, [] => (p.matchAt? ⟨before, []⟩).toList
  | _ + 1, [] => []
  | 0, x :: rest =>
    match p.matchAt? ⟨before, x :: rest⟩ with
    | none => findAllFrom p (x :: before) 0 rest
    | some m =>
      if m.length = 0 then
        match p.matchSomeAt? ⟨before, x :: rest⟩ with
        | some longer => m :: longer :: findAllFrom p (x :: before) (longer.length - 1) rest
        | none => m :: findAllFrom p (x :: before) 0 rest
      else m :: findAllFrom p (x :: before) (m.length - 1) rest
  | skip + 1, x :: rest => findAllFrom p (x :: before) skip rest

/-- Every occurrence, empty ones included. -/
def findAll (p : Pattern) (t : Text) : List Match :=
  findAllFrom p [] 0 t

end Pattern

/-- The texts before, between and after `spans`, which are given in order and do not overlap; `position` is where
the text begins. -/
def gapsBetween (position : Nat) (t : Text) : List (Nat × Nat) → List Text
  | [] => [t]
  | (start, stop) :: spans =>
    t.take (start - position) :: gapsBetween stop (t.drop (stop - position)) spans

namespace Pattern

/-- The texts around the occurrences. -/
def split (p : Pattern) (t : Text) : List Text :=
  gapsBetween 0 t ((p.occurrences t).map Match.span)

/-- Put `replacement` in the place of every occurrence. -/
def replace (p : Pattern) (replacement : Text) (t : Text) : Text :=
  Text.join replacement (p.split t)

end Pattern

end LightMarkup
