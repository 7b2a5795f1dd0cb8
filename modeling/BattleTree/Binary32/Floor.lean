import BattleTree.Binary32.Value

/-!
This module contains the floor of a single-precision number as the coordinate of a cell.
-/

namespace BattleTree.Binary32

def floorParts (negative : Bool) (significand : Nat) (exponent : Int) : Int :=
  let scaled : Int := significand * Nat.pow 2 exponent.toNat
  (if negative then -scaled else scaled) / Nat.pow 2 (-exponent).toNat

def clampCell (n : Int) : Int :=
  max Int32.minValue.toInt (min n Int32.maxValue.toInt)

def floorCell (x : Float32) : Int :=
  match value x with
  | .nan => 0
  | .infinite negative => if negative then Int32.minValue.toInt else Int32.maxValue.toInt
  | .finite negative significand exponent =>
    clampCell (floorParts negative significand exponent)

end BattleTree.Binary32
