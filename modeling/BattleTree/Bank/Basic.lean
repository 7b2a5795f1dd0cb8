import BattleTree.Graph.Node

/-!
This module contains banks: named executable trees that are addressed by the order in which they
were added.
-/

namespace BattleTree

structure Bank where
  names : Array String
  graphs : Array Graph
  size_eq : names.size = graphs.size
  deriving Repr

namespace Bank

def empty : Bank where
  names := #[]
  graphs := #[]
  size_eq := rfl

def push (b : Bank) (name : String) (graph : Graph) : Bank × Nat :=
  let graphs := b.graphs.push graph
  let bank := {
    names := b.names.push name
    graphs
    size_eq := by rw [Array.size_push, Array.size_push, b.size_eq] }
  (bank, graphs.size - 1)

def size (b : Bank) : Nat :=
  b.graphs.size

def isEmpty (b : Bank) : Bool :=
  b.graphs.isEmpty

def get? (b : Bank) (index : Nat) : Option Graph :=
  b.graphs[index]?

def name? (b : Bank) (index : Nat) : Option String :=
  b.names[index]?

def indexOf? (b : Bank) (name : String) : Option Nat :=
  b.names.toList.findIdx? fun other => other = name

end Bank

end BattleTree
