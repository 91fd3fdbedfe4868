import LightMarkup.FanOut
import LightMarkup.Proofs.Logged

/-!
Two runs of one computation side by side. A relation that sequencing keeps holds of two whole runs as soon as it holds
where the runs part, and where something happens that the relation is about; everything else is ordinary.
-/

namespace LightMarkup

-- Failures that have nothing to do with how strict the settings are, or with a match that is not found again.
def Failure.isOrdinary : Failure → Bool
  | .fault _ => true
  | .sliceReversed _ _ => true
  | .sliceOverflow _ _ => true
  | .missingDocumentName _ => true
  | .invalidTag _ => true
  | .recursionDepth _ => true
  | .unresolvableBlock _ => true
  | .resource (.image _) => true
  | _ => false

def skippedRule : Text := "no loading rule for block construct "

-- Warnings in the place of which a strict run fails.
def Entry.isComplaint (entry : Entry) : Bool :=
  entry.level == .warning && match entry.origin with
    | .rewriting => true
    | .paragraphs => true
    | .resources => true
    | .loading => skippedRule.isPrefixOf entry.message
    | _ => false

variable {α β : Type}

def Ordinary (x : Except Failure α) : Prop :=
  ∀ failure, x = .error failure → failure.isOrdinary = true

namespace Ordinary

variable {x : Except Failure α} {f : α → Except Failure β}

theorem ok (a : α) : Ordinary (.ok a : Except Failure α) := by
  intro failure stopped
  cases stopped

theorem error {failure : Failure} (ordinary : failure.isOrdinary = true) : Ordinary (.error failure : Except Failure α) := by
  intro other stopped
  cases stopped
  exact ordinary

theorem bind (first : Ordinary x) (later : ∀ a, x = .ok a → Ordinary (f a)) : Ordinary (x >>= f) := by
  cases x with
  | ok a => exact later a rfl
  | error failure => exact .error (first failure rfl)

theorem ite {holds : Prop} [Decidable holds] {y : Except Failure α} (one : Ordinary x) (two : Ordinary y) :
    Ordinary (if holds then x else y) := by
  split
  · exact one
  · exact two

theorem map {f : α → β} (first : Ordinary x) : Ordinary (x.map f) := by
  cases x with
  | ok a => exact .ok (f a)
  | error failure => exact .error (first failure rfl)

end Ordinary

structure Lockstep (R : {α : Type} → Logged α → Logged α → Prop) : Prop where
  except : ∀ {α : Type} {x : Except Failure α}, Ordinary x → R (Logged.ofExcept x) (Logged.ofExcept x)
  write : ∀ {level : Level} {origin : Origin} {message : Text}, (Entry.mk level origin message).isComplaint = false →
    R (Logged.write level origin message) (Logged.write level origin message)
  bind : ∀ {α β : Type} {x y : Logged α} {f g : α → Logged β}, R x y → (∀ a, x.outcome = .ok a → R (f a) (g a)) →
    R (x >>= f) (y >>= g)

namespace Lockstep

variable {R : {α : Type} → Logged α → Logged α → Prop} (lockstep : Lockstep R)
include lockstep

theorem pure (a : α) : R (Pure.pure a) (Pure.pure a) :=
  lockstep.except (.ok a)

theorem fail {failure : Failure} (ordinary : failure.isOrdinary = true) :
    R (Logged.fail failure : Logged α) (Logged.fail failure) :=
  lockstep.except (.error ordinary)

theorem debug (origin : Origin) (message : Text) : R (Logged.debug origin message) (Logged.debug origin message) :=
  lockstep.write rfl

theorem mapM {items : List α} {f g : α → Logged β} (each : ∀ item ∈ items, R (f item) (g item)) :
    R (items.mapM f) (items.mapM g) := by
  induction items with
  | nil => exact lockstep.pure []
  | cons item items ih =>
    obtain ⟨here,others⟩ := List.forall_mem_cons.mp each
    rw [List.mapM_cons,List.mapM_cons]
    exact lockstep.bind here fun out _ => lockstep.bind (ih others) fun outs _ => lockstep.pure _

theorem inOrder {units others : List (Logged α)} (each : List.Forall₂ R units others) :
    R (FanOut.inOrder units) (FanOut.inOrder others) := by
  induction each with
  | nil => exact lockstep.pure []
  | cons here _ ih =>
    exact lockstep.bind here fun out _ => lockstep.bind ih fun outs _ => lockstep.pure _

end Lockstep
end LightMarkup
