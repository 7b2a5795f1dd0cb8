import BattleTree.Catalog.Atomic
import BattleTree.Catalog.Transform

/-!
This module contains executable trees. Their nodes are numbered, and compiled trees are numbered in
preorder, which makes looking up a number a search along one path.
-/

namespace BattleTree

abbrev NodeId := UInt32

inductive Node where
  | sequence (id : NodeId) (children : List Node)
  | fallback (id : NodeId) (children : List Node)
  | decorator (id : NodeId) (transform : Transform) (child : Node)
  | leaf (id : NodeId) (atomic : Atomic)
  deriving Repr

namespace Node

def id : Node → NodeId
  | sequence id _ | fallback id _ | decorator id .. | leaf id _ => id

def children : Node → List Node
  | sequence _ children | fallback _ children => children
  | decorator _ _ child => [child]
  | leaf .. => []

mutual

def preorder : Node → List Node
  | sequence id children => sequence id children :: preorderAll children
  | fallback id children => fallback id children :: preorderAll children
  | decorator id transform child => decorator id transform child :: child.preorder
  | leaf id atomic => [leaf id atomic]

def preorderAll : List Node → List Node
  | [] => []
  | n :: ns => n.preorder ++ preorderAll ns

end

/--
Halve the `size` children from `base` on until one is left: go to the upper half if its first child
has at most the wanted number.
-/
def lastAtMost (children : Array Node) (id : NodeId) (base size : Nat) : Nat :=
  if size ≤ 1 then
    base
  else
    let half := size / 2
    let upper := children[base + half]?.any fun child => child.id ≤ id
    lastAtMost children id (if upper then base + half else base) (size - half)
termination_by size

def candidate (children : List Node) (id : NodeId) : Nat :=
  lastAtMost children.toArray id 0 children.length

mutual

def find? (id : NodeId) : Node → Option Node
  | sequence own children =>
    if own = id then some (sequence own children)
    else findAt? id children (candidate children id)
  | fallback own children =>
    if own = id then some (fallback own children)
    else findAt? id children (candidate children id)
  | decorator own transform child =>
    if own = id then some (decorator own transform child)
    else findAt? id [child] (candidate [child] id)
  | leaf own atomic => if own = id then some (leaf own atomic) else none

def findAt? (id : NodeId) : List Node → (place : Nat) → Option Node
  | [], _ => none
  | n :: _, 0 => if n.id ≤ id then n.find? id else none
  | _ :: ns, place + 1 => findAt? id ns place

end

end Node

structure Graph where
  root : Node
  nodeCount : UInt64
  deriving Repr

def Graph.node? (g : Graph) (id : NodeId) : Option Node :=
  g.root.find? id

end BattleTree
