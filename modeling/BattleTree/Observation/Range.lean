/-!
This module contains ranges of rows of an observation.
-/

namespace BattleTree

structure RowRange where
  start : Nat
  stop : Nat
  deriving DecidableEq, Repr

namespace RowRange

def size (r : RowRange) : Nat :=
  r.stop - r.start

def toList (r : RowRange) : List Nat :=
  List.range' r.start r.size

theorem mem_toList {r : RowRange} {i : Nat} : i ∈ r.toList ↔ r.start ≤ i ∧ i < r.stop := by
  simp only [toList, size, List.mem_range'_1]
  omega

end RowRange

end BattleTree
