import BattleTree.Catalog.Resolve
import BattleTree.Graph.Node
import BattleTree.Program.Parser

/-!
This module contains the compilation of syntax trees: all calls are bound, and the nodes are
numbered in preorder.
-/

namespace BattleTree

namespace SyntaxTree

variable {σ : Type}

def wrongKind (call : Call) (expected : Role) (found : Resolved) (mark : σ) : CompileError σ :=
  .wrongKind call.name expected found.role mark

def compileLeaf (expected : Role) (id : NodeId) (call : Call) (mark : σ) :
    Except (CompileError σ) Node := do
  match ← resolve call mark with
  | .leaf atomic =>
    if (Resolved.leaf atomic).role = expected then
      return .leaf id atomic
    else
      throw (wrongKind call expected (.leaf atomic) mark)
  | found => throw (wrongKind call expected found mark)

def compileTransform (call : Call) (mark : σ) : Except (CompileError σ) Transform := do
  match ← resolve call mark with
  | .transform transform => return transform
  | found => throw (wrongKind call .transform found mark)

mutual

def compileFrom (next : NodeId) : SyntaxTree σ → Except (CompileError σ) (Node × NodeId)
  | sequence _ children => do
    let (nodes, after) ← compileAllFrom (next + 1) children
    return (.sequence next nodes, after)
  | fallback _ children => do
    let (nodes, after) ← compileAllFrom (next + 1) children
    return (.fallback next nodes, after)
  | action mark call => do
    return (← compileLeaf .action next call mark, next + 1)
  | condition mark call => do
    return (← compileLeaf .condition next call mark, next + 1)
  | decorator mark call child => do
    -- The call is bound before anything of the child is.
    let transform ← compileTransform call mark
    let (node, after) ← child.compileFrom (next + 1)
    return (.decorator next transform node, after)

def compileAllFrom (next : NodeId) :
    List (SyntaxTree σ) → Except (CompileError σ) (List Node × NodeId)
  | [] => return ([], next)
  | t :: ts => do
    let (node, mid) ← t.compileFrom next
    let (nodes, after) ← compileAllFrom mid ts
    return (node :: nodes, after)

end

def compile (t : SyntaxTree σ) : Except (CompileError σ) Graph := do
  let (root, after) ← t.compileFrom 0
  return { root, nodeCount := after.toUInt64 }

end SyntaxTree

inductive BuildError where
  | parse (error : ParseError)
  | compile (error : CompileError Span)
  deriving DecidableEq, Repr

def BuildError.message : BuildError → String
  | parse error => error.message
  | compile error => error.message

def Program.compile (text : String) : Except BuildError Graph :=
  match Program.parse text with
  | .error error => .error (.parse error)
  | .ok tree =>
    match tree.compile with
    | .error error => .error (.compile error)
    | .ok graph => .ok graph

end BattleTree
