import LightMarkup.Logged

/-!
Running the units of a compilation: one after the other until one fails, or all of them. Either way the results come
in the order of the units.
-/

namespace LightMarkup

namespace FanOut

variable {α : Type}

/-- Stop at the first unit that fails. -/
def inOrder : List (Logged α) → Logged (List α)
  | [] => pure []
  | unit :: rest => do
    let result ← unit
    let results ← inOrder rest
    pure (result :: results)

def failures (units : List (Logged α)) : List Failure :=
  units.filterMap Logged.failure?

/-- Run every unit, whatever fails; `fail` makes one failure of the first and the others. -/
def all (fail : Failure → List Failure → Failure) (units : List (Logged α)) : Logged (List α) :=
  let log := units.flatMap Logged.log
  match failures units with
  | [] => ⟨log, .ok (units.filterMap Logged.value?)⟩
  | first :: others => ⟨log, .error (fail first others)⟩

/-- Collecting errors reports them all together. Running in parallel reports the first in the order of the units. -/
def run (parallel collect : Bool) (units : List (Logged α)) : Logged (List α) :=
  if collect then all (fun first others => .several (first :: others)) units
  else if parallel && 1 < units.length then all (fun first _ => first) units
  else inOrder units

/-- What each unit came to, as far as it was run. -/
def reachedInOrder : List (Logged α) → List (Option α)
  | [] => []
  | unit :: rest =>
    match unit.value? with
    | some result => some result :: reachedInOrder rest
    | none => none :: rest.map fun _ => none

def reached (parallel collect : Bool) (units : List (Logged α)) : List (Option α) :=
  if collect || (parallel && 1 < units.length) then units.map Logged.value? else reachedInOrder units

end FanOut

end LightMarkup
