import LightMarkup.FanOut
import LightMarkup.Proofs.Logged

/-!
What units come to together. Whether they are run until one fails or all of them, the outcome is a matter of the outcomes
of the units: the results if there is no failure, else the first failure or all of them.
-/

namespace LightMarkup

namespace Logged

variable {α : Type} {x y : Logged α}

theorem value?_ok {a : α} (ran : x.outcome = .ok a) : x.value? = some a := by
  simp [value?,ran]

theorem value?_error {failure : Failure} (stopped : x.outcome = .error failure) : x.value? = none := by
  simp [value?,stopped]

theorem failure?_ok {a : α} (ran : x.outcome = .ok a) : x.failure? = none := by
  simp [failure?,ran]

theorem failure?_error {failure : Failure} (stopped : x.outcome = .error failure) : x.failure? = some failure := by
  simp [failure?,stopped]

theorem failure?_some {failure : Failure} : x.failure? = some failure ↔ x.outcome = .error failure := by
  cases ran : x.outcome with
  | ok a => simp [failure?_ok ran]
  | error other => simp [failure?_error ran]

end Logged

namespace FanOut

variable {α : Type} {units others : List (Logged α)}

-- What is reported of the failures of units.
def report (collect : Bool) (first : Failure) (later : List Failure) : Failure :=
  if collect then .several (first :: later) else first

-- The results of the units, or what is reported of their failures.
def verdict (collect : Bool) (units : List (Logged α)) : Except Failure (List α) :=
  match failures units with
  | [] => .ok (units.filterMap Logged.value?)
  | first :: later => .error (report collect first later)

theorem failures_ok {unit : Logged α} {a : α} (ran : unit.outcome = .ok a) : failures (unit :: units) = failures units := by
  simp [failures,Logged.failure?_ok ran]

theorem failures_error {unit : Logged α} {failure : Failure} (stopped : unit.outcome = .error failure) :
    failures (unit :: units) = failure :: failures units := by
  simp [failures,Logged.failure?_error stopped]

theorem inOrder_verdict (units : List (Logged α)) : (inOrder units).outcome = verdict false units := by
  induction units with
  | nil => rfl
  | cons unit units ih =>
    rw [inOrder,verdict]
    cases ran : unit.outcome with
    | error failure =>
      rw [Logged.bind_error ran,failures_error ran]
      rfl
    | ok a =>
      rw [Logged.bind_ok ran,failures_ok ran,Logged.outcome_bind_pure (a :: ·) (inOrder units),ih,verdict]
      cases failures units with
      | nil => simp [Except.map,Logged.value?_ok ran]
      | cons first later => rfl

theorem all_verdict (fail : Failure → List Failure → Failure) (units : List (Logged α)) :
    (all fail units).outcome = match failures units with
      | [] => .ok (units.filterMap Logged.value?)
      | first :: later => .error (fail first later) := by
  unfold all
  dsimp only
  cases failures units <;> rfl

-- Both ways of running the units come to the same.
theorem run_verdict (parallel collect : Bool) (units : List (Logged α)) :
    (run parallel collect units).outcome = verdict collect units := by
  unfold run
  split
  · rename_i collected
    rw [all_verdict,collected]
    rfl
  · rename_i single
    rw [Bool.not_eq_true] at single
    rw [single]
    split
    · exact all_verdict _ units
    · exact inOrder_verdict units

theorem failures_congr (same : units.map Logged.outcome = others.map Logged.outcome) : failures units = failures others := by
  have through : ∀ units : List (Logged α), failures units =
      (units.map Logged.outcome).filterMap fun outcome => (Logged.ofExcept outcome).failure? := by
    intro units
    rw [List.filterMap_map]
    rfl
  rw [through units,through others,same]

theorem values_congr (same : units.map Logged.outcome = others.map Logged.outcome) :
    units.map Logged.value? = others.map Logged.value? := by
  have through : ∀ units : List (Logged α), units.map Logged.value? =
      (units.map Logged.outcome).map fun outcome => (Logged.ofExcept outcome).value? := by
    intro units
    rw [List.map_map]
    rfl
  rw [through units,through others,same]

theorem verdict_congr (collect : Bool) (same : units.map Logged.outcome = others.map Logged.outcome) :
    verdict collect units = verdict collect others := by
  have through : ∀ units : List (Logged α), units.filterMap Logged.value? = (units.map Logged.value?).filterMap id := by
    intro units
    rw [List.filterMap_map,Function.id_comp]
  rw [verdict,verdict,failures_congr same,through units,through others,values_congr same]

-- A single unit is reached in either way.
theorem reached_eq (parallel collect : Bool) (units : List (Logged α)) :
    reached parallel collect units = if collect || parallel then units.map Logged.value? else reachedInOrder units := by
  have few : ¬ 1 < units.length → reachedInOrder units = units.map Logged.value? := by
    intro few
    match units with
    | [] => rfl
    | [unit] =>
      cases ran : unit.outcome with
      | ok a => simp [reachedInOrder,Logged.value?_ok ran]
      | error failure => simp [reachedInOrder,Logged.value?_error ran]
    | _ :: _ :: _ => simp at few
  unfold reached
  cases collect with
  | true => rfl
  | false =>
    cases parallel with
    | false => rfl
    | true =>
      by_cases more : 1 < units.length
      · simp [more]
      · simp [more,few more]

end FanOut
end LightMarkup
