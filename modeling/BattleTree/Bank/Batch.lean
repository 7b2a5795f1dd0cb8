import BattleTree.Bank.Basic
import BattleTree.Graph.Tick

/-!
This module contains the tick of many agents at once, each of which selects a tree of one bank.
-/

namespace BattleTree

structure BatchMember where
  index : Nat
  view : View
  context : Context

inductive BatchError where
  | rejected (violation : Violation)
  | fault (fault : Fault)
  deriving DecidableEq, Repr

namespace Bank

def foreignIndex? (b : Bank) : (first : Nat) → List BatchMember → Option Violation
  | _, [] => none
  | first, m :: members =>
    if m.index < b.size then b.foreignIndex? (first + 1) members
    else some (.treeIndex first m.index b.size)

def accept (b : Bank) (members : List BatchMember) : Except Violation Unit := do
  match b.foreignIndex? 0 members with
  | some violation => throw violation
  -- A view is only looked at if the indices of all members are in the bank.
  | none => members.forM fun m => m.context.check m.view

def selectFrom (m : BatchMember) : (first : Nat) → (selected : Decision) → List Graph →
    Except Fault Decision
  | _, selected, [] => .ok selected
  | first, selected, g :: graphs => do
    let decision ← g.tick m.view m.context
    selectFrom m (first + 1) (if first = m.index then decision else selected) graphs

def decideFor (b : Bank) (m : BatchMember) : Except Fault Decision :=
  selectFrom m 0 (.idle .failure 0) b.graphs.toList

def tickBatch (b : Bank) (members : List BatchMember) : Except BatchError (List Decision) :=
  match b.accept members with
  | .error violation => .error (.rejected violation)
  | .ok () => (members.mapM b.decideFor).mapError .fault

end Bank

end BattleTree
