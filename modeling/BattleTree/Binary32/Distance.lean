import BattleTree.Binary32.Rounding
import BattleTree.Binary32.Value

/-!
This module contains the length of a vector of two single-precision coordinates. The squares are
summed and the root is taken with 53 significant bits, and the result is rounded once more to single
precision.
-/

namespace BattleTree.Binary32

def workingBits : Nat := 53

def singleBits : Nat := 24

def sumOfSquares (s₁ : Nat) (e₁ : Int) (s₂ : Nat) (e₂ : Int) : Magnitude :=
  let least := min e₁ e₂
  let a := s₁ * Nat.pow 2 (e₁ - least).toNat
  let b := s₂ * Nat.pow 2 (e₂ - least).toNat
  { significand := a * a + b * b, exponent := 2 * least }

def ofMagnitude (m : Magnitude) : Float32 :=
  let rounded := (m.roundTo singleBits minExponent).normalize singleBits minExponent
  ofParts rounded.significand rounded.exponent

/--
The Euclidean length of `(x, y)`. It is infinite if one coordinate is, whatever the other one is,
and otherwise not a number if one coordinate is none.
-/
def distance (x y : Float32) : Float32 :=
  match value x, value y with
  | .infinite _, _ => Float32.ofBits (UInt32.ofNat infinityBits)
  | _, .infinite _ => Float32.ofBits (UInt32.ofNat infinityBits)
  | .finite _ s₁ e₁, .finite _ s₂ e₂ =>
    let sum := (sumOfSquares s₁ e₁ s₂ e₂).roundTo workingBits (2 * minExponent)
    let root := (sum.sqrt (workingBits + 2)).roundTo workingBits (2 * minExponent)
    ofMagnitude root
  | _, _ => x + y

end BattleTree.Binary32
