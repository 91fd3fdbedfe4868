import LightMarkup.Text.Basic

/-!
File paths: a root and the names under it. Empty names and single dots vanish; names of the parent directory stay,
because they may lead out of a linked directory.
-/

namespace LightMarkup

structure Path where
  root : Text
  names : List Text
  deriving DecidableEq, Repr

namespace Path

def namesOf (t : Text) : List Text :=
  (Text.splitAtChar '/' t).filter fun name => !name.isEmpty && name != ['.']

-- Two leading slashes are a root of their own; three or more are one slash.
def rootOf (t : Text) : Text :=
  let slashes := (t.takeWhile (· == '/')).length
  if slashes = 0 then []
  else if slashes = 2 then "//"
  else "/"

def ofText (t : Text) : Path :=
  ⟨rootOf t, namesOf t⟩

def toText (p : Path) : Text :=
  if p.root.isEmpty && p.names.isEmpty then "." else p.root ++ Text.join "/" p.names

def isAbsolute (p : Path) : Bool :=
  !p.root.isEmpty

/-- A path from a directory; an absolute one stays as it is. -/
def under (directory p : Path) : Path :=
  if p.isAbsolute then p else ⟨directory.root, directory.names ++ p.names⟩

def name (p : Path) : Text :=
  p.names.getLastD []

def parent (p : Path) : Path :=
  ⟨p.root, p.names.dropLast⟩

def parentName : Text := ".."

/-- Names with every step to a parent taken, where there is something to step out of; last name first. -/
def steppedBack (absolute : Bool) : List Text → List Text → List Text
  | passed, [] => passed
  | passed, name :: rest =>
    if name = parentName then
      match passed with
      | [] => steppedBack absolute (if absolute then [] else [name]) rest
      | last :: others =>
        if last = parentName then steppedBack absolute (name :: passed) rest
        else steppedBack absolute others rest
    else steppedBack absolute (name :: passed) rest

/-- The path without needless steps, by its text alone. -/
def normalised (p : Path) : Path :=
  ⟨p.root, (steppedBack p.isAbsolute [] p.names).reverse⟩

/-- What follows the last slash of a text. -/
def lastName (t : Text) : Text :=
  (t.reverse.takeWhile (· != '/')).reverse

end Path

end LightMarkup
