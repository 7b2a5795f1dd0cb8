import BattleTree.Heading
import BattleTree.Terrain.Basic

/-!
This module contains the test of a straight move against the obstacles of a map.
-/

namespace BattleTree

def anyFrom (p : Int → Except Fault Bool) : (start : Int) → (count : Nat) → Except Fault Bool
  | _, 0 => .ok false
  | start, count + 1 => do
    if ← p start then return true else anyFrom p (start + 1) count

def Heading.unit {α : Type} [Scalar α] : Heading → Point α
  | .north => ⟨Scalar.ofInt 0, Scalar.ofInt 1⟩
  | .east => ⟨Scalar.ofInt 1, Scalar.ofInt 0⟩
  | .south => ⟨Scalar.ofInt 0, Scalar.ofInt (-1)⟩
  | .west => ⟨Scalar.ofInt (-1), Scalar.ofInt 0⟩

namespace Terrain

variable {α : Type} [Scalar α]

def stops (t : Terrain) (move : Segment α) (c : Cell) : Except Fault Bool := do
  if ← t.isBlocked c then return c.touches move else return false

/--
Whether a straight move crosses an obstacle. Candidates are the cells of the start's row between the
two ends, or of its column if the move goes further north or south than east or west.
-/
def crossing (t : Terrain) (move : Segment α) : Except Fault Bool :=
  let source : Cell := ⟨Scalar.floor move.start.x, Scalar.floor move.start.y⟩
  let target : Cell := ⟨Scalar.floor move.finish.x, Scalar.floor move.finish.y⟩
  if (target.y - source.y).natAbs ≤ (target.x - source.x).natAbs then
    anyFrom (fun x => t.stops move ⟨x, source.y⟩) (min source.x target.x)
      ((target.x - source.x).natAbs + 1)
  else
    anyFrom (fun y => t.stops move ⟨source.x, y⟩) (min source.y target.y)
      ((target.y - source.y).natAbs + 1)

def stride (start : Point α) (heading : Heading) (step : α) : Segment α :=
  let unit := heading.unit
  ⟨start, ⟨start.x + unit.x * step, start.y + unit.y * step⟩⟩

def blocks (t : Terrain) (start : Point α) (heading : Heading) (step : α) : Except Fault Bool :=
  t.crossing (stride start heading step)

end Terrain

end BattleTree
