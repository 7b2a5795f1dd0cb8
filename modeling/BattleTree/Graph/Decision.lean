import BattleTree.Graph.Node
import BattleTree.Outcome

/-!
This module contains the results of ticks.
-/

namespace BattleTree

structure Decision extends Outcome where
  node : NodeId
  deriving DecidableEq, Repr

namespace Decision

def idle (status : Status) (node : NodeId) : Decision :=
  { status, action := .stand, node }

end Decision

end BattleTree
