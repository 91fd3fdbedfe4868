import LightMarkup.Failure

/-!
Exclusions: which constructs may not act on a piece of text. Combining two excludes what either excludes, and
keeps identifiers in the order in which they were first named.
-/

namespace LightMarkup

inductive Exclusion where
  | everything
  | listed (identifiers : List String)
  | nothing
  deriving DecidableEq, Repr

namespace Exclusion

/-- Each identifier once. A list is kept apart from `nothing` even when it is empty. -/
def ofList (identifiers : List String) : Exclusion :=
  .listed identifiers.eraseDups

def contains : Exclusion → String → Bool
  | .everything, _ => true
  | .listed identifiers, identifier => identifiers.contains identifier
  | .nothing, _ => false

def combine : Exclusion → Exclusion → Exclusion
  | .everything, _ => .everything
  | _, .everything => .everything
  | .nothing, other => other
  | excluded, .nothing => excluded
  | .listed a, .listed b => ofList (a ++ b)

/-- Equal up to the order of identifiers. -/
def agrees : Exclusion → Exclusion → Bool
  | .everything, .everything => true
  | .listed a, .listed b => a.all b.contains && b.all a.contains
  | .nothing, .nothing => true
  | _, _ => false

def ofState (state : Text) (identifiers : List String) : Except Failure Exclusion :=
  if state = "EVERYTHING" then .ok .everything
  else if state = "LISTED" then .ok (ofList identifiers)
  else if state = "NOTHING" then .ok .nothing
  else .error (.fault (.invalidExclusionState state))

def describe : Exclusion → Text
  | .everything => "IncompatibilitySet.everything()"
  | .nothing => "IncompatibilitySet.nothing()"
  | .listed identifiers => "IncompatibilitySet.listed(" ++ Text.quotedList (identifiers.map Text.ofString) ++ ")"

end Exclusion

end LightMarkup
