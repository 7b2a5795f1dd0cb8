import BattleTree.Program.Reference

/-!
This module contains the syntax trees of programs. Every node carries an annotation, which is the
place of its start for parsed programs.
-/

namespace BattleTree

inductive Arg where
  | word (text : String)
  | quoted (text : String)
  | ref (reference : Reference)
  deriving DecidableEq, Repr

def Arg.asWord? : Arg → Option String
  | word text | quoted text => some text
  | ref .self => some "self"
  | ref _ => none

structure Call where
  name : String
  args : List Arg
  deriving DecidableEq, Repr

inductive SyntaxTree (σ : Type) where
  | sequence (mark : σ) (children : List (SyntaxTree σ))
  | fallback (mark : σ) (children : List (SyntaxTree σ))
  | action (mark : σ) (call : Call)
  | condition (mark : σ) (call : Call)
  | decorator (mark : σ) (call : Call) (child : SyntaxTree σ)
  deriving Repr

namespace SyntaxTree

variable {σ τ : Type}

def mark : SyntaxTree σ → σ
  | sequence m _ | fallback m _ | action m _ | condition m _ | decorator m .. => m

def kind : SyntaxTree σ → String
  | sequence .. => "sequence"
  | fallback .. => "fallback"
  | action .. => "action"
  | condition .. => "condition"
  | decorator .. => "decorator"

def children : SyntaxTree σ → List (SyntaxTree σ)
  | sequence _ children | fallback _ children => children
  | decorator _ _ child => [child]
  | action .. | condition .. => []

def call? : SyntaxTree σ → Option Call
  | action _ call | condition _ call | decorator _ call _ => some call
  | sequence .. | fallback .. => none

mutual

def map (f : σ → τ) : SyntaxTree σ → SyntaxTree τ
  | sequence m children => sequence (f m) (mapAll f children)
  | fallback m children => fallback (f m) (mapAll f children)
  | action m call => action (f m) call
  | condition m call => condition (f m) call
  | decorator m call child => decorator (f m) call (child.map f)

def mapAll (f : σ → τ) : List (SyntaxTree σ) → List (SyntaxTree τ)
  | [] => []
  | t :: ts => t.map f :: mapAll f ts

end

mutual

def nodeCount : SyntaxTree σ → Nat
  | sequence _ children | fallback _ children => 1 + nodeCountAll children
  | action .. | condition .. => 1
  | decorator _ _ child => 1 + child.nodeCount

def nodeCountAll : List (SyntaxTree σ) → Nat
  | [] => 0
  | t :: ts => t.nodeCount + nodeCountAll ts

end

mutual

def depth : SyntaxTree σ → Nat
  | sequence _ children | fallback _ children => 1 + depthAll children
  | action .. | condition .. => 1
  | decorator _ _ child => 1 + child.depth

def depthAll : List (SyntaxTree σ) → Nat
  | [] => 0
  | t :: ts => max t.depth (depthAll ts)

end

mutual

def preorder : SyntaxTree σ → List (SyntaxTree σ)
  | sequence m children => sequence m children :: preorderAll children
  | fallback m children => fallback m children :: preorderAll children
  | action m call => [action m call]
  | condition m call => [condition m call]
  | decorator m call child => decorator m call child :: child.preorder

def preorderAll : List (SyntaxTree σ) → List (SyntaxTree σ)
  | [] => []
  | t :: ts => t.preorder ++ preorderAll ts

end

def shape (t : SyntaxTree σ) : SyntaxTree Unit :=
  t.map fun _ => ()

mutual

theorem length_preorder (t : SyntaxTree σ) : t.preorder.length = t.nodeCount := by
  cases t with
  | sequence m children | fallback m children =>
    simp [preorder, nodeCount, length_preorderAll children, Nat.add_comm]
  | action m call | condition m call => simp [preorder, nodeCount]
  | decorator m call child => simp [preorder, nodeCount, length_preorder child, Nat.add_comm]

theorem length_preorderAll (ts : List (SyntaxTree σ)) :
    (preorderAll ts).length = nodeCountAll ts := by
  cases ts with
  | nil => simp [preorderAll, nodeCountAll]
  | cons t ts => simp [preorderAll, nodeCountAll, length_preorder t, length_preorderAll ts]

end

theorem mem_preorderAll {u : SyntaxTree σ} {ts : List (SyntaxTree σ)} :
    u ∈ preorderAll ts ↔ ∃ t ∈ ts, u ∈ t.preorder := by
  induction ts with
  | nil => simp [preorderAll]
  | cons t ts ih => simp [preorderAll, ih]

mutual

theorem map_map {ρ : Type} (f : σ → τ) (g : τ → ρ) (t : SyntaxTree σ) :
    (t.map f).map g = t.map (g ∘ f) := by
  cases t with
  | sequence m children | fallback m children => simp [map, mapAll_mapAll f g children]
  | action m call | condition m call => simp [map]
  | decorator m call child => simp [map, map_map f g child]

theorem mapAll_mapAll {ρ : Type} (f : σ → τ) (g : τ → ρ) (ts : List (SyntaxTree σ)) :
    mapAll g (mapAll f ts) = mapAll (g ∘ f) ts := by
  cases ts with
  | nil => simp [mapAll]
  | cons t ts => simp [mapAll, map_map f g t, mapAll_mapAll f g ts]

end

mutual

@[simp]
theorem depth_map (f : σ → τ) (t : SyntaxTree σ) : (t.map f).depth = t.depth := by
  cases t with
  | sequence m children | fallback m children => simp [map, depth, depthAll_mapAll f children]
  | action m call | condition m call => simp [map, depth]
  | decorator m call child => simp [map, depth, depth_map f child]

@[simp]
theorem depthAll_mapAll (f : σ → τ) (ts : List (SyntaxTree σ)) :
    depthAll (mapAll f ts) = depthAll ts := by
  cases ts with
  | nil => simp [mapAll, depthAll]
  | cons t ts => simp [mapAll, depthAll, depth_map f t, depthAll_mapAll f ts]

end

@[simp]
theorem shape_map (f : σ → τ) (t : SyntaxTree σ) : (t.map f).shape = t.shape := by
  unfold shape
  apply map_map

@[simp]
theorem depth_shape (t : SyntaxTree σ) : t.shape.depth = t.depth := by
  unfold shape
  apply depth_map

end SyntaxTree

end BattleTree
