import BattleTree.Catalog.Keyword

/-!
This module contains the events that a traced tick reports.
-/

namespace BattleTree

inductive EventKind where
  | leaf
  | decorator
  | fired
  deriving DecidableEq, Repr

instance : Keyword EventKind where
  all := [.leaf, .decorator, .fired]
  spelling
    | .leaf => "bt.leaf"
    | .decorator => "bt.decorator"
    | .fired => "bt.fired"

structure TraceEvent where
  tick : UInt64
  kind : EventKind
  node : UInt32
  value : UInt32
  deriving DecidableEq, Repr

def TraceEvent.text (e : TraceEvent) : String :=
  s!"[{e.tick.toNat}] {Keyword.spelling e.kind} node={e.node.toNat} value={e.value.toNat}"

end BattleTree
