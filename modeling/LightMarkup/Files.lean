import LightMarkup.Text.Lines
import LightMarkup.Text.Path
import LightMarkup.Text.Utf8
import LightMarkup.Failure

/-!
The files under a working directory, as a table. Reading and writing go by path, step by step, as a file system goes:
each step but the last must lead to a directory.
-/

namespace LightMarkup

abbrev Bytes := List UInt8

/-- Files with their contents and directories without; directories that hold an entry need none of their own. -/
structure FileTree where
  /-- The name of the working directory itself. -/
  name : Text
  entries : List (List Text × Option Bytes)
  deriving Repr

inductive Node where
  | file (content : Bytes)
  | directory
  deriving DecidableEq, Repr

namespace FileTree

/-- What stands at exactly these names. -/
def node? (tree : FileTree) (names : List Text) : Option Node :=
  match tree.entries.lookup names with
  | some (some content) => some (.file content)
  | some none => some .directory
  | none =>
    if names.isEmpty || tree.entries.any (fun (entry, _) => names.isPrefixOf entry) then some .directory else none

def byteLength (t : Text) : Nat :=
  (Text.toUtf8 t).length

-- The most bytes that a name takes, and a whole path.
def longestName : Nat := 255
def longestPath : Nat := 4095

/-- What is wrong with the text of a path. The halves that stand for single bytes may be in it. -/
def checkPath (p : Path) : Except Fault Unit :=
  let t := p.toText
  if t.any fun c => Text.isHalf c && !(0xdc80 ≤ Text.code c && Text.code c ≤ 0xdcff) then .error .notWritable
  else if t.contains '\x00' then .error .unusablePath
  else if longestPath < byteLength t then .error (.nameTooLong t)
  else .ok ()

/-- Follow the names of the path `whole` from a directory, given by the names that lead to it, last one first. A step to
a parent leaves the table at its top. -/
def follow (tree : FileTree) (whole : Path) : List Text → List Text → Except Fault (List Text)
  | reached, [] => .ok reached.reverse
  | reached, name :: rest =>
    match tree.node? reached.reverse with
    | none => .error .fileNotFound
    | some (.file _) => .error .notDirectory
    | some .directory =>
      if longestName < byteLength name then .error (.nameTooLong whole.toText)
      else if name = Path.parentName then
        match reached with
        | [] => .error .fileNotFound
        | _ :: above => follow tree whole above rest
      else follow tree whole (name :: reached) rest

/-- The names that a path leads to; an absolute path leads out of the table. -/
def locate (tree : FileTree) (p : Path) : Except Fault (List Text) := do
  checkPath p
  if p.isAbsolute then .error .fileNotFound else tree.follow p [] p.names

def find (tree : FileTree) (p : Path) : Except Fault Node := do
  let names ← tree.locate p
  match tree.node? names with
  | some node => .ok node
  | none => .error .fileNotFound

/-- What stands at a path, if anything does; too long a name cannot be looked for. -/
def find? (tree : FileTree) (p : Path) : Except Fault (Option Node) :=
  match tree.find p with
  | .ok node => .ok (some node)
  | .error (.nameTooLong path) => .error (.nameTooLong path)
  | .error _ => .ok none

def isFile (tree : FileTree) (p : Path) : Except Fault Bool := do
  match ← tree.find? p with
  | some (.file _) => pure true
  | _ => pure false

def isDirectory (tree : FileTree) (p : Path) : Except Fault Bool := do
  match ← tree.find? p with
  | some .directory => pure true
  | _ => pure false

def readBytes (tree : FileTree) (p : Path) : Except Fault Bytes := do
  match ← tree.find p with
  | .file content => .ok content
  | .directory => .error .isDirectory

/-- The text of a file, with newlines as its only line breaks by carriage return. -/
def readText (tree : FileTree) (p : Path) : Except Fault Text := do
  let content ← tree.readBytes p
  match Text.ofUtf8? content with
  | some text => .ok (Text.withNewlines text)
  | none => .error .notUtf8

/-- The names in a directory. -/
def list (tree : FileTree) (p : Path) : Except Fault (List Text) := do
  let names ← tree.locate p
  match tree.node? names with
  | some .directory =>
    .ok ((tree.entries.filterMap fun (entry, _) =>
      if names.isPrefixOf entry then (entry.drop names.length).head? else none).eraseDups)
  | some (.file _) => .error .notDirectory
  | none => .error .fileNotFound

/-- The name of the directory that a path leads to, whether it exists or not. -/
def nameOf (tree : FileTree) (p : Path) : Text :=
  let path := p.normalised
  if path.names.isEmpty then (if path.isAbsolute then [] else tree.name) else path.name

/-- Every file of the tree. -/
def files (tree : FileTree) : List (List Text) :=
  tree.entries.filterMap fun (names, content) => if content.isSome then some names else none

/-- Write a file in a directory that exists, over a file that may exist. -/
def write (tree : FileTree) (p : Path) (content : Bytes) : Except Fault FileTree := do
  let names ← tree.locate p
  match tree.node? names with
  | some .directory => .error .isDirectory
  | some (.file _) =>
    .ok { tree with
      entries := tree.entries.map fun (entry, kept) =>
        if entry = names then (entry, some content) else (entry, kept) }
  | none =>
    match tree.node? names.dropLast with
    | some .directory => .ok { tree with entries := tree.entries ++ [(names, some content)] }
    | some (.file _) => .error .notDirectory
    | none => .error .fileNotFound

/-- The files that are new or hold something else than before. -/
def changedSince (before tree : FileTree) : List (List Text × Bytes) :=
  tree.entries.filterMap fun (names, content) =>
    content.bind fun content =>
      if before.entries.lookup names = some (some content) then none else some (names, content)

end FileTree

end LightMarkup
