/-!
Why a text has no value.
-/

namespace LightMarkup

namespace Yaml

inductive Problem where
  /-- A text that is not YAML, or a node that nothing can be read by. -/
  | malformed
  /-- A number that is not written as one, or a date or a character that does not exist. -/
  | outOfRange
  | tooLarge
  /-- A truth value by a word that is not known. -/
  | unknownWord
  | noDigits
  | notMoment
  | notText
  /-- Nodes too deep inside each other, or a text that is given by itself. -/
  | endless
  deriving DecidableEq, Repr

def orProblem {α : Type} (problem : Problem) : Option α → Except Problem α
  | some a => .ok a
  | none => .error problem

end Yaml

end LightMarkup
