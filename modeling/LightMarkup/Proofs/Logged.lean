import Mathlib.Data.List.Forall2
import LightMarkup.Logged

/-!
Logged computations as a monad, and those that only fail: what a sequence of them leaves behind when it succeeds, and
where it stops when it does not.
-/

namespace LightMarkup

instance Failure.decidableOk {α : Type} [DecidableEq α] (x : Except Failure α) (a : α) : Decidable (x = .ok a) :=
  match x with
  | .ok b => decidable_of_iff (b = a) ⟨congrArg _,Except.ok.inj⟩
  | .error _ => isFalse nofun

theorem Failure.bind_ok {α β : Type} {x : Except Failure α} {f : α → Except Failure β} {b : β} :
    x >>= f = .ok b ↔ ∃ a, x = .ok a ∧ f a = .ok b := by
  cases x with
  | ok a => simp [bind,Except.bind]
  | error failure => simp [bind,Except.bind]

-- Two outcomes that are related results or the same failure.
inductive Failure.Agree {α β : Type} (R : α → β → Prop) : Except Failure α → Except Failure β → Prop where
  | ok {a : α} {b : β} (same : R a b) : Agree R (.ok a) (.ok b)
  | error (failure : Failure) : Agree R (.error failure) (.error failure)

namespace Failure.Agree

variable {α β γ δ : Type} {R : α → β → Prop} {S : γ → δ → Prop} {x : Except Failure α} {y : Except Failure β}

theorem same {x : Except Failure α} {R : α → α → Prop} (refl : ∀ a, R a a) : Agree R x x := by
  cases x with
  | ok a => exact .ok (refl a)
  | error failure => exact .error failure

theorem bind {f : α → Except Failure γ} {g : β → Except Failure δ} (first : Agree R x y)
    (later : ∀ a b, R a b → Agree S (f a) (g b)) : Agree S (x >>= f) (y >>= g) := by
  cases first with
  | ok same => exact later _ _ same
  | error failure => exact .error failure

theorem ok_left {a : α} (agree : Agree R x y) (run : x = .ok a) : ∃ b, y = .ok b ∧ R a b := by
  cases agree with
  | ok same =>
    cases run
    exact ⟨_,rfl,same⟩
  | error failure => cases run

end Failure.Agree

namespace Logged

variable {α β : Type} {x : Logged α} {f : α → Logged β} {a : α} {b : β} {failure : Failure}

@[simp] theorem outcome_pure (a : α) : (Pure.pure a : Logged α).outcome = .ok a := rfl

@[simp] theorem outcome_fail (failure : Failure) : (fail failure : Logged α).outcome = .error failure := rfl

@[simp] theorem outcome_ofExcept (outcome : Except Failure α) : (ofExcept outcome).outcome = outcome := rfl

@[simp] theorem outcome_write (level : Level) (origin : Origin) (message : Text) :
    (write level origin message).outcome = .ok () := rfl

@[simp] theorem outcome_debug (origin : Origin) (message : Text) : (debug origin message).outcome = .ok () := rfl

@[simp] theorem outcome_warn (origin : Origin) (message : Text) : (warn origin message).outcome = .ok () := rfl

theorem bind_ok (run : x.outcome = .ok a) : x >>= f = ⟨x.log ++ (f a).log,(f a).outcome⟩ := by
  show Logged.bind x f = _
  simp [Logged.bind,run]

theorem bind_error (stopped : x.outcome = .error failure) : x >>= f = ⟨x.log,.error failure⟩ := by
  show Logged.bind x f = _
  simp [Logged.bind,stopped]

theorem outcome_bind_ok : (x >>= f).outcome = .ok b ↔ ∃ a, x.outcome = .ok a ∧ (f a).outcome = .ok b := by
  cases run : x.outcome with
  | ok a => simp [bind_ok run]
  | error failure => simp [bind_error run]

theorem outcome_bind_error : (x >>= f).outcome = .error failure ↔
    x.outcome = .error failure ∨ ∃ a, x.outcome = .ok a ∧ (f a).outcome = .error failure := by
  cases run : x.outcome with
  | ok a => simp [bind_ok run]
  | error failure => simp [bind_error run]

theorem outcome_bind (x : Logged α) (f : α → Logged β) : (x >>= f).outcome = x.outcome >>= fun a => (f a).outcome := by
  cases ran : x.outcome with
  | ok a => rw [bind_ok ran]; rfl
  | error failure => rw [bind_error ran]; rfl

theorem id_map (x : Logged α) : id <$> x = x := by
  obtain ⟨log,outcome⟩ := x
  show Logged.bind _ _ = _
  cases outcome <;> simp [Logged.bind,Logged.pure]

theorem pure_bind (a : α) (f : α → Logged β) : Pure.pure a >>= f = f a := by
  rw [bind_ok (outcome_pure a)]
  show (⟨[] ++ (f a).log,(f a).outcome⟩ : Logged β) = f a
  simp

-- What was logged before a failure stays logged, so only the nesting of sequences is forgotten.
theorem bind_assoc {γ : Type} (x : Logged α) (f : α → Logged β) (g : β → Logged γ) :
    x >>= f >>= g = x >>= fun a => f a >>= g := by
  cases run : x.outcome with
  | error failure => rw [bind_error run,bind_error run,bind_error rfl]
  | ok a =>
    rw [bind_ok run,bind_ok run]
    cases next : (f a).outcome with
    | error failure => rw [bind_error next,bind_error rfl]
    | ok b => rw [bind_ok next,bind_ok rfl,List.append_assoc]

instance : LawfulMonad Logged :=
  LawfulMonad.mk' Logged id_map pure_bind bind_assoc

-- A run over a list fails only where one of its steps does.
theorem mapM_error {items : List α} (stopped : (items.mapM f).outcome = .error failure) :
    ∃ item ∈ items, (f item).outcome = .error failure := by
  induction items with
  | nil => cases stopped
  | cons item items ih =>
    rw [List.mapM_cons,outcome_bind_error] at stopped
    rcases stopped with here | ⟨out,_,later⟩
    · exact ⟨item,by simp,here⟩
    · rcases outcome_bind_error.mp later with there | ⟨outs,_,none⟩
      · obtain ⟨next,member,there⟩ := ih there
        exact ⟨next,List.mem_cons_of_mem _ member,there⟩
      · cases none

-- A run over a list that succeeds has taken every step with success.
theorem mapM_ok {items : List α} {outs : List β} (ran : (items.mapM f).outcome = .ok outs) :
    List.Forall₂ (fun item out => (f item).outcome = .ok out) items outs := by
  induction items generalizing outs with
  | nil => cases ran; exact .nil
  | cons item items ih =>
    rw [List.mapM_cons,outcome_bind_ok] at ran
    obtain ⟨out,here,ran⟩ := ran
    obtain ⟨others,there,same⟩ := outcome_bind_ok.mp ran
    cases same
    exact .cons here (ih there)

theorem mapM_all {items : List α} {outs : List β}
    (ran : List.Forall₂ (fun item out => (f item).outcome = .ok out) items outs) : (items.mapM f).outcome = .ok outs := by
  induction ran with
  | nil => rfl
  | cons here later ih =>
    rw [List.mapM_cons]
    exact outcome_bind_ok.mpr ⟨_,here,outcome_bind_ok.mpr ⟨_,ih,rfl⟩⟩

-- Two runs that write the same log and end in related results or the same failure.
structure Agree (R : α → β → Prop) (x : Logged α) (y : Logged β) : Prop where
  log : x.log = y.log
  outcome : Failure.Agree R x.outcome y.outcome

namespace Agree

variable {γ δ : Type} {R : α → β → Prop} {S : γ → δ → Prop}

theorem ofExcept {x : Except Failure α} {y : Except Failure β} (same : Failure.Agree R x y) :
    Agree R (ofExcept x) (Logged.ofExcept y) :=
  ⟨rfl,same⟩

theorem pure {a : α} {b : β} (same : R a b) : Agree R (Pure.pure a) (Pure.pure b) :=
  ⟨rfl,.ok same⟩

theorem same {R : α → α → Prop} (refl : ∀ a, R a a) (x : Logged α) : Agree R x x :=
  ⟨rfl,.same refl⟩

theorem bind {x : Logged α} {y : Logged β} {f : α → Logged γ} {g : β → Logged δ} (first : Agree R x y)
    (later : ∀ a b, R a b → Agree S (f a) (g b)) : Agree S (x >>= f) (y >>= g) := by
  obtain ⟨log,outcome⟩ := first
  generalize left : x.outcome = one at outcome
  generalize right : y.outcome = two at outcome
  cases outcome with
  | ok same =>
    obtain ⟨more,ended⟩ := later _ _ same
    rw [bind_ok left,bind_ok right]
    exact ⟨by rw [log,more],ended⟩
  | error failure =>
    rw [bind_error left,bind_error right]
    exact ⟨log,.error failure⟩

theorem imp {S : α → β → Prop} {x : Logged α} {y : Logged β} (agree : Agree R x y)
    (more : ∀ a b, x.outcome = .ok a → y.outcome = .ok b → R a b → S a b) : Agree S x y := by
  obtain ⟨log,outcome⟩ := agree
  refine ⟨log,?_⟩
  generalize x.outcome = one at outcome more
  generalize y.outcome = two at outcome more
  cases outcome with
  | ok same => exact .ok (more _ _ rfl rfl same)
  | error failure => exact .error failure

theorem mapM {items : List γ} {f : γ → Logged α} {g : γ → Logged β} (each : ∀ item ∈ items, Agree R (f item) (g item)) :
    Agree (List.Forall₂ R) (items.mapM f) (items.mapM g) := by
  induction items with
  | nil => exact .pure .nil
  | cons item items ih =>
    obtain ⟨here,others⟩ := List.forall_mem_cons.mp each
    rw [List.mapM_cons,List.mapM_cons]
    exact here.bind fun _ _ first => (ih others).bind fun _ _ rest => .pure (.cons first rest)

end Agree

theorem outcome_debug_bind (origin : Origin) (message : Text) (x : Logged α) :
    (do Logged.debug origin message; x).outcome = x.outcome := by
  rw [bind_ok (outcome_debug origin message)]

theorem outcome_bind_pure (f : α → β) (x : Logged α) : (do let a ← x; Pure.pure (f a)).outcome = x.outcome.map f := by
  cases ran : x.outcome with
  | ok a =>
    rw [bind_ok ran]
    rfl
  | error failure =>
    rw [bind_error ran]
    rfl

-- A run that ends as another one does, with a result made of the other's, and gives the same warnings.
structure Turns (f : α → β) (x : Logged α) (y : Logged β) : Prop where
  outcome : y.outcome = x.outcome.map f
  warnings : y.warnings = x.warnings

theorem Turns.refl (x : Logged α) : Turns id x x :=
  ⟨by cases x.outcome <;> rfl,rfl⟩

end Logged
end LightMarkup
