import LightMarkup.Failure

/-!
Computations that write a log and may fail. What was logged before a failure stays logged.
-/

namespace LightMarkup

inductive Level where
  | debug
  | info
  | warning
  deriving DecidableEq, Repr

/-- The part of the program that writes an entry. -/
inductive Origin where
  | drafts
  | rewriting
  | paragraphs
  | loading
  | dossiers
  | resources
  | settings
  | compilation
  | contents
  deriving DecidableEq, Repr

structure Entry where
  level : Level
  origin : Origin
  message : Text
  deriving DecidableEq, Repr

structure Logged (α : Type) where
  log : List Entry
  outcome : Except Failure α

namespace Level

def name : Level → Text
  | .debug => "DEBUG"
  | .info => "INFO"
  | .warning => "WARNING"

end Level

namespace Origin

def name : Origin → Text
  | .drafts => "nmd.compilables"
  | .rewriting => "nmd.rules"
  | .paragraphs => "nmd.paragraphs"
  | .loading => "nmd.loaders"
  | .dossiers => "nmd.dossiers"
  | .resources => "nmd.resources"
  | .settings => "nmd.configurations"
  | .compilation => "nmd.compilers"
  | .contents => "nmd.contents"

end Origin

namespace Entry

/-- Order by the part of the program, then by the message. -/
def before (a b : Entry) : Bool :=
  if a.origin.name == b.origin.name then Text.before a.message b.message
  else Text.before a.origin.name b.origin.name

end Entry

namespace Logged

variable {α β : Type}

def pure (a : α) : Logged α := ⟨[], .ok a⟩

def bind (x : Logged α) (f : α → Logged β) : Logged β :=
  match x.outcome with
  | .ok a =>
    let y := f a
    ⟨x.log ++ y.log, y.outcome⟩
  | .error failure => ⟨x.log, .error failure⟩

instance : Monad Logged where
  pure := Logged.pure
  bind := Logged.bind

def fail (failure : Failure) : Logged α := ⟨[], .error failure⟩

def ofExcept (outcome : Except Failure α) : Logged α := ⟨[], outcome⟩

instance : MonadLift (Except Failure) Logged := ⟨ofExcept⟩

def write (level : Level) (origin : Origin) (message : Text) : Logged Unit :=
  ⟨[⟨level, origin, message⟩], .ok ()⟩

def debug (origin : Origin) (message : Text) : Logged Unit := write .debug origin message
def info (origin : Origin) (message : Text) : Logged Unit := write .info origin message
def warn (origin : Origin) (message : Text) : Logged Unit := write .warning origin message

/-- Forget the value. -/
def discard (x : Logged α) : Logged Unit :=
  ⟨x.log, x.outcome.map fun _ => ()⟩

def succeeds (x : Logged α) : Bool :=
  match x.outcome with
  | .ok _ => true
  | .error _ => false

def failure? (x : Logged α) : Option Failure :=
  match x.outcome with
  | .ok _ => none
  | .error failure => some failure

def value? (x : Logged α) : Option α :=
  match x.outcome with
  | .ok a => some a
  | .error _ => none

def warnings (x : Logged α) : List Entry :=
  x.log.filter (·.level == .warning)

end Logged

end LightMarkup
