import BattleTree.Action
import BattleTree.Status

/-!
This module contains what an evaluated leaf or subtree reports: a status and an action.
-/

namespace BattleTree

structure Outcome where
  status : Status
  action : Action
  deriving DecidableEq, Repr

namespace Outcome

def ofCondition (ok : Bool) : Outcome :=
  { status := .ofBool ok, action := .stand }

def miss : Outcome :=
  { status := .failure, action := .stand }

end Outcome

end BattleTree
