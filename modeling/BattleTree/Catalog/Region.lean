import BattleTree.Catalog.Domain

/-!
This module contains the nine regions of a map, three bands in each direction.
-/

namespace BattleTree

/--
A cell of the partition of the map into three rows and three columns, numbered `-1`, `0`, `1`. Rows
grow to the north and columns to the east. Other numbers name no part of the map.
-/
structure Region where
  row : Int8
  col : Int8
  deriving DecidableEq, Repr

namespace Region

def ofPair? : Direction → Direction → Option Region
  | .north, .west => some ⟨1, -1⟩
  | .north, .north => some ⟨1, 0⟩
  | .north, .east => some ⟨1, 1⟩
  | .west, .west => some ⟨0, -1⟩
  | .center, .center => some ⟨0, 0⟩
  | .east, .east => some ⟨0, 1⟩
  | .south, .west => some ⟨-1, -1⟩
  | .south, .south => some ⟨-1, 0⟩
  | .south, .east => some ⟨-1, 1⟩
  | _, _ => none

def band (v : Float32) : Int8 :=
  if v > 2 / 3 then 1
  else if v < 1 / 3 then -1
  else 0

def ofPosition (x y : Float32) : Region :=
  { row := band y, col := band x }

end Region

end BattleTree
