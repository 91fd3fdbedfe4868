import LightMarkup.Text.Digit
import LightMarkup.Text.Quoted

/-!
Command line options: flags in their short and long forms, and the names of files between them.

Short flags can be written together, long ones can be cut short as long as no other begins in the same way, and the
value of an option follows it, in the same word or in the next.
-/

namespace LightMarkup

namespace CommandLine

inductive Flag where
  | version
  | all
  | dossier
  | parallel
  | strict
  | fastDraft
  | verbose
  deriving DecidableEq, Repr

structure Options where
  all : Bool := false
  dossier : Option Text := none
  parallel : Bool := false
  strict : Bool := false
  fastDraft : Bool := false
  verbose : Bool := false
  names : List Text := []
  deriving DecidableEq, Repr

inductive Request where
  | version
  | run (options : Options)
  deriving DecidableEq, Repr

inductive UsageError where
  | ambiguous (word : Text) (candidates : List Text)
  | valueMissing (flag : Flag)
  | valueIgnored (flag : Flag) (value : Text)
  | unrecognised (words : List Text)
  deriving DecidableEq, Repr

namespace Flag

def flags : List Flag :=
  [.version, .all, .dossier, .parallel, .strict, .fastDraft, .verbose]

def letter : Flag → Char
  | .version => 'v'
  | .all => 'a'
  | .dossier => 'd'
  | .parallel => 'p'
  | .strict => 's'
  | .fastDraft => 'f'
  | .verbose => 'x'

def short (flag : Flag) : Text :=
  ['-', flag.letter]

def long : Flag → Text
  | .version => "--version"
  | .all => "--all"
  | .dossier => "--dossier"
  | .parallel => "--parallel"
  | .strict => "--strict"
  | .fastDraft => "--fast-draft"
  | .verbose => "--verbose"

def takesValue : Flag → Bool
  | .dossier => true
  | _ => false

def describe (flag : Flag) : Text :=
  flag.short ++ "/" ++ flag.long

def ofLetter? (c : Char) : Option Flag :=
  flags.find? fun flag => flag.letter == c

/-- The flag with exactly this form. -/
def ofForm? (form : Text) : Option Flag :=
  flags.find? fun flag => flag.short == form || flag.long == form

/-- The flags whose long form begins like this. -/
def startingWith (start : Text) : List Flag :=
  flags.filter fun flag => start.isPrefixOf flag.long

end Flag

namespace UsageError

def message : UsageError → Text
  | .ambiguous word candidates => "ambiguous option: " ++ word ++ " could match " ++ Text.join ", " candidates
  | .valueMissing flag => "argument " ++ flag.describe ++ ": expected one argument"
  | .valueIgnored flag value => "argument " ++ flag.describe ++ ": ignored explicit argument " ++ Text.quoted value
  | .unrecognised words => "unrecognized arguments: " ++ Text.join " " words

end UsageError

/-- A word of the command line: a name, a flag with what is written behind it, or two hyphens, which end the
options. A flag in its short form may be followed by further flags. -/
inductive Word where
  | name (t : Text)
  | option (flag : Flag) (short : Bool) (behind : Option Text)
  | endOfOptions
  | unknown (t : Text)
  deriving DecidableEq, Repr

namespace Word

def text : Word → Text
  | .name t => t
  | .endOfOptions => "--"
  | .option flag short _ => if short then flag.short else flag.long
  | .unknown t => t

/-- Numbers are names, though they may begin with a hyphen. -/
def isNumber (t : Text) : Bool :=
  match t with
  | '-' :: digits =>
    match digits.dropWhile Text.isDecimal with
    | [] => !digits.isEmpty
    | '.' :: fraction => !fraction.isEmpty && fraction.all Text.isDecimal
    | _ => false
  | _ => false

/-- What is written before and after the first equality sign. -/
def splitAtEquals (t : Text) : Text × Option Text :=
  match t.dropWhile (· != '=') with
  | [] => (t, none)
  | _ :: behind => (t.takeWhile (· != '='), some behind)

/-- A flag that is not written in full: a long one cut short, or a short one with something behind it. -/
def abbreviated (t : Text) : Except UsageError (Option Word) :=
  match t with
  | '-' :: '-' :: _ =>
    let (start, behind) := splitAtEquals t
    match Flag.startingWith start with
    | [] => .ok none
    | [flag] => .ok (some (.option flag false behind))
    | candidates => .error (.ambiguous t (candidates.map Flag.long))
  | '-' :: c :: behind => .ok ((Flag.ofLetter? c).map fun flag => .option flag true (some behind))
  | _ => .ok none

def isShort (form : Text) : Bool :=
  form.length == 2

def ofText (t : Text) : Except UsageError Word :=
  match t with
  | '-' :: _ :: _ =>
    match Flag.ofForm? t with
    | some flag => .ok (.option flag (isShort t) none)
    | none =>
      let (form, behind) := splitAtEquals t
      match (if behind.isSome then Flag.ofForm? form else none) with
      | some flag => .ok (.option flag (isShort form) behind)
      | none => do
        match ← abbreviated t with
        | some word => pure word
        | none => pure (if isNumber t || t.contains ' ' then .name t else .unknown t)
  | _ => .ok (.name t)

def endMark : Text := "--"

/-- The words of a command line; after two hyphens all are names. -/
def ofTexts : List Text → Except UsageError (List Word)
  | [] => .ok []
  | t :: rest =>
    if t = endMark then .ok (.endOfOptions :: rest.map .name)
    else do
      let word ← ofText t
      let words ← ofTexts rest
      pure (word :: words)

end Word

/-- The flags of one word, and the value that the last one finds there. -/
def flagsOf (flag : Flag) (short : Bool) : Option Text → Except UsageError (List Flag × Option Text)
  | none => .ok ([flag], none)
  | some behind =>
    if flag.takesValue then .ok ([flag], some behind)
    else match short, behind with
      | true, c :: rest =>
        match Flag.ofLetter? c with
        | none => .error (.valueIgnored flag behind)
        | some next => do
          let (flags, value) ← flagsOf next true (if rest.isEmpty then none else some rest)
          pure (flag :: flags, value)
      | _, _ => .error (.valueIgnored flag behind)
termination_by behind => (behind.map (·.length + 1)).getD 0
decreasing_by
  split <;> simp

namespace Options

/-- Set a flag that takes no value. -/
def set (options : Options) : Flag → Options
  | .all => { options with all := true }
  | .parallel => { options with parallel := true }
  | .strict => { options with strict := true }
  | .fastDraft => { options with fastDraft := true }
  | .verbose => { options with verbose := true }
  | .version => options
  | .dossier => options

end Options

def isName : Word → Bool
  | .name _ => true
  | .endOfOptions => true
  | _ => false

/-- What has been read: the names come all together, once; words that belong nowhere are kept aside. An option that
awaits its value says whether the version was asked for in the same word. -/
structure Parsing where
  options : Options := {}
  named : Bool := false
  left : List Text := []
  awaiting : Option Bool := none

def finish (p : Parsing) : Except UsageError Request :=
  if p.left.isEmpty then .ok (.run p.options) else .error (.unrecognised p.left)

/-- The words that do not belong to names or values that have been taken: `collected` are names not yet taken. -/
def takeNames (collected : List Word) (p : Parsing) : Parsing :=
  if collected.isEmpty then p
  else if p.named then { p with left := p.left ++ collected.map Word.text }
  else { p with options := { p.options with names := (collected.erase .endOfOptions).map Word.text }, named := true }

/-- The value of the option that awaits one. -/
def giveValue (p : Parsing) (value : Text) : Parsing :=
  { p with options := { p.options with dossier := some value }, awaiting := none }

/-- Read words from left to right. The version is answered at once, whatever comes after it. -/
def readWords (collected : List Word) (p : Parsing) : List Word → Except UsageError Request
  | [] => if p.awaiting.isSome then .error (.valueMissing .dossier) else finish (takeNames collected p)
  | .name t :: rest =>
    match p.awaiting with
    | none => readWords (collected ++ [.name t]) p rest
    | some true => .ok .version
    | some false => readWords [] (giveValue p t) rest
  | word :: rest =>
    if p.awaiting.isSome then .error (.valueMissing .dossier)
    else match word with
      | .option flag short behind => do
        let p := takeNames collected p
        let (flags, value) ← flagsOf flag short behind
        let isVersion := flags.contains .version
        let p := { p with options := flags.foldl Options.set p.options }
        if flags.contains .dossier && value.isNone then readWords [] { p with awaiting := some isVersion } rest
        else if isVersion then pure .version
        else readWords [] (match value with
          | some value => giveValue p value
          | none => p) rest
      | .unknown t =>
        let p := takeNames collected p
        readWords [] { p with left := p.left ++ [t] } rest
      | other => readWords (collected ++ [other]) p rest

def Request.ofTexts (words : List Text) : Except UsageError Request := do
  let words ← Word.ofTexts words
  readWords [] {} words

end CommandLine

end LightMarkup
