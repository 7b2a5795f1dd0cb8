import BattleTree.Catalog.Keyword
import BattleTree.Outcome

/-!
This module contains the changes that a decorator makes to the status of its child.
-/

namespace BattleTree

inductive Transform where
  | invert
  | forceSuccess
  | forceFailure
  deriving DecidableEq, Repr

namespace Transform

instance : Keyword Transform where
  all := [invert, forceSuccess, forceFailure]
  spelling
    | invert => "invert"
    | forceSuccess => "force_success"
    | forceFailure => "force_failure"

def applyStatus : Transform → Status → Status
  | invert, .success => .failure
  | invert, .failure => .success
  | invert, .running => .running
  | forceSuccess, _ => .success
  | forceFailure, _ => .failure

def apply (transform : Transform) (outcome : Outcome) : Outcome :=
  { outcome with status := transform.applyStatus outcome.status }

@[simp]
theorem apply_action (transform : Transform) (outcome : Outcome) :
    (transform.apply outcome).action = outcome.action := rfl

@[simp]
theorem apply_status (transform : Transform) (outcome : Outcome) :
    (transform.apply outcome).status = transform.applyStatus outcome.status := rfl

end Transform

end BattleTree
