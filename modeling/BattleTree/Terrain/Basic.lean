import BattleTree.Fault
import BattleTree.Geometry.Segment

/-!
This module contains the obstruction raster of a map, one cell per world unit, listed row by row
from the south.
-/

namespace BattleTree

structure Raster where
  width : Nat
  height : Nat
  blocked : Array Bool
  deriving DecidableEq, Repr

structure Terrain extends Raster where
  size_eq : blocked.size = width * height
  deriving DecidableEq, Repr

def Cell.ofPlace (column row : Nat) : Cell :=
  ⟨(Int32.ofNat column).toInt, (Int32.ofNat row).toInt⟩

namespace Terrain

def ofSize (width height : Nat) : Except Fault Terrain := do
  unless 0 < width ∧ 0 < height do
    throw .terrainEmpty
  requireAddressable (width * height)
  return {
    width, height
    blocked := Array.replicate (width * height) false
    size_eq := Array.size_replicate }

/--
Whether a coordinate is on a map of the given extent. An extent that does not fit into 32 bits with
a sign is read as a negative one, so that no coordinate is on the map.
-/
def covers (extent : Nat) (coordinate : Int) : Bool :=
  0 ≤ coordinate && coordinate < (Int32.ofNat extent).toInt

def index? (t : Terrain) (c : Cell) : Option Nat :=
  if covers t.width c.x && covers t.height c.y then
    some (c.y.toNat * t.width + c.x.toNat)
  else
    none

def setBlocked (t : Terrain) (c : Cell) (blocked : Bool) : Except Fault Terrain :=
  match t.index? c with
  | some i =>
    if i < t.blocked.size then
      .ok { t with
        blocked := t.blocked.setIfInBounds i blocked
        size_eq := by rw [Array.size_setIfInBounds, t.size_eq] }
    else
      .error .outOfRange
  | none => .ok t

def isBlocked (t : Terrain) (c : Cell) : Except Fault Bool :=
  match t.index? c with
  | some i =>
    match t.blocked[i]? with
    | some blocked => .ok blocked
    | none => .error .outOfRange
  | none => .ok true

def setRow (t : Terrain) (y : Nat) (row : List UInt8) : Except Fault Terrain :=
  row.zipIdx.foldlM (fun t (cell, x) => t.setBlocked (.ofPlace x y) (cell ≠ 0)) t

def setRows (t : Terrain) : (y : Nat) → List (List UInt8) → Except Fault Terrain
  | _, [] => .ok t
  | y, row :: rows => do
    unless (UInt32.ofNat row.length).toNat = t.width do
      throw .terrainRagged
    (← t.setRow y row).setRows (y + 1) rows

/--
The map of the given rows from south to north. Everything but zero is an obstacle. The extents are
the lower 32 bits of the lengths.
-/
def ofRows (rows : List (List UInt8)) : Except Fault Terrain := do
  let width := rows.head?.elim 0 List.length
  let t ← ofSize (UInt32.ofNat width).toNat (UInt32.ofNat rows.length).toNat
  t.setRows 0 rows

def picture (t : Terrain) : Except Fault (List String) :=
  (List.range t.height).mapM fun (y : Nat) => do
    let cells ← (List.range t.width).mapM fun (x : Nat) => t.isBlocked ⟨x, y⟩
    return String.ofList (cells.map fun blocked => if blocked then '#' else '.')

end Terrain

end BattleTree
