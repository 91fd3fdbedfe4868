import LightMarkup.Text.Basic

/-!
Greek letters by their keys, as LaTeX commands. Where several keys begin at a place, the longest is taken.
-/

namespace LightMarkup

namespace GreekLetters

def smallLetters : List (Text × Text) := [
  ("a", "alpha"), ("b", "beta"), ("g", "gamma"), ("d", "delta"), ("e", "epsilon"), ("z", "zeta"), ("n", "eta"),
  ("th", "theta"), ("i", "iota"), ("k", "kappa"), ("l", "lambda"), ("m", "mu"), ("nu", "nu"), ("x", "xi"),
  ("o", "omicron"), ("p", "pi"), ("r", "rho"), ("s", "sigma"), ("t", "tau"), ("u", "upsilon"), ("phi", "phi"),
  ("chi", "chi"), ("psi", "psi"), ("w", "omega")]

def capitalLetters : List (Text × Text) := [
  ("A", "Alpha"), ("B", "Beta"), ("G", "Gamma"), ("D", "Delta"), ("E", "Epsilon"), ("Z", "Zeta"), ("N", "Eta"),
  ("Th", "Theta"), ("I", "Iota"), ("K", "Kappa"), ("L", "Lambda"), ("M", "Mu"), ("Nu", "Nu"), ("X", "Xi"),
  ("O", "Omicron"), ("P", "Pi"), ("R", "Rho"), ("S", "Sigma"), ("T", "Tau"), ("U", "Upsilon"), ("Phi", "Phi"),
  ("Chi", "Chi"), ("Psi", "Psi"), ("W", "Omega")]

/-- Keys and commands; no key stands twice. -/
def commands : List (Text × Text) :=
  smallLetters ++ capitalLetters

/-- The key of exactly `length` characters at the beginning of a text. -/
def keyOfLength? (length : Nat) (t : Text) : Option (Text × Text) :=
  commands.find? fun (key, _) => key.length == length && key.isPrefixOf t

-- No key is longer than three characters.
def longestKey? (t : Text) : Option (Text × Text) :=
  match keyOfLength? 3 t with
  | some found => some found
  | none =>
    match keyOfLength? 2 t with
    | some found => some found
    | none => keyOfLength? 1 t

/-- A key with its command, or a character that begins no key. -/
inductive Segment where
  | letter (key command : Text)
  | other (c : Char)
  deriving DecidableEq, Repr

/-- Cut a text into segments; `skip` characters still belong to the last key. -/
def segmentsFrom : Nat → Text → List Segment
  | _, [] => []
  | skip + 1, _ :: rest => segmentsFrom skip rest
  | 0, c :: rest =>
    match longestKey? (c :: rest) with
    | some (key, command) => .letter key command :: segmentsFrom (key.length - 1) rest
    | none => .other c :: segmentsFrom 0 rest

def segments (t : Text) : List Segment :=
  segmentsFrom 0 t

def Segment.latex : Segment → Text
  | .letter _ command => '\\' :: command
  | .other c => [c]

/-- The LaTeX text, and the characters that are kept because they begin no key. -/
def decompose (t : Text) : Text × List Text :=
  ((segments t).flatMap Segment.latex,
   (segments t).filterMap fun
    | .letter _ _ => none
    | .other c => some [c])

end GreekLetters

end LightMarkup
