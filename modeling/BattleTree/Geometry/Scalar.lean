import BattleTree.Binary32.Floor

/-!
This module contains the numbers that the plane geometry of the map is written over. The simulation
uses single precision; the same definitions over rational numbers say what they compute exactly.
-/

namespace BattleTree

class Scalar (α : Type) extends Add α, Sub α, Mul α where
  eq : α → α → Bool
  le : α → α → Bool
  lt : α → α → Bool
  ofInt : Int → α
  floor : α → Int

namespace Scalar

instance : Scalar Float32 where
  eq x y := x == y
  le x y := decide (x ≤ y)
  lt x y := decide (x < y)
  ofInt := Float32.ofInt
  floor := Binary32.floorCell

instance : Scalar Rat where
  eq x y := decide (x = y)
  le x y := decide (x ≤ y)
  lt x y := decide (x < y)
  ofInt n := n
  floor := Rat.floor

variable {α : Type} [Scalar α]

def zero : α := ofInt 0

def min (x y : α) : α :=
  if le x y then x else if le y y then y else x

def max (x y : α) : α :=
  if le y x then x else if le y y then y else x

end Scalar

end BattleTree
