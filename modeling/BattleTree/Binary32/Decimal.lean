import BattleTree.Binary32.Value

/-!
This module contains the shortest decimal text of a single-precision number: the fewest digits that
only this number rounds to, and of those the nearest, always written without an exponent.
-/

namespace BattleTree.Binary32

structure Decimal where
  digits : Nat
  exponent : Int
  deriving DecidableEq, Repr

/--
The numbers between `low` and `high`, all three counted in quarters of `2 ^ exponent`, round to the
number `middle`; the ends do so if the interval is `closed`.
-/
structure RoundingInterval where
  low : Nat
  middle : Nat
  high : Nat
  exponent : Int
  closed : Bool

def roundingInterval (significand : Nat) (exponent : Int) : RoundingInterval :=
  let narrow := significand = Nat.pow 2 23 && exponent ≠ minExponent
  { low := 4 * significand - (if narrow then 1 else 2)
    middle := 4 * significand
    high := 4 * significand + 2
    exponent := exponent - 2
    closed := significand % 2 = 0 }

/--
The nearer one of the two neighbours of `middle` on the grid `10 ^ exponent` that are inside, and
the upper one if both are equally near.
-/
def RoundingInterval.gridPoint? (i : RoundingInterval) (exponent : Int) : Option Nat :=
  let binary := Nat.pow 2 i.exponent.toNat * Nat.pow 10 (-exponent).toNat
  let unit := Nat.pow 10 exponent.toNat * Nat.pow 2 (-i.exponent).toNat
  let below := i.middle * binary / unit
  let above := below + 1
  let belowInside :=
    if i.closed then i.low * binary ≤ below * unit else i.low * binary < below * unit
  let aboveInside :=
    if i.closed then above * unit ≤ i.high * binary else above * unit < i.high * binary
  let nearer := i.middle * binary - below * unit < above * unit - i.middle * binary
  if belowInside ∧ (¬ aboveInside ∨ nearer) then some below
  else if aboveInside then some above
  else none

def RoundingInterval.shortest (i : RoundingInterval) (finest : Int) : (grids : Nat) → Decimal
  | 0 => { digits := 0, exponent := finest }
  | grids + 1 =>
    match i.gridPoint? (finest + grids) with
    | some digits => { digits, exponent := finest + grids }
    | none => i.shortest finest grids

def shortestDecimal (significand : Nat) (exponent : Int) : Decimal :=
  (roundingInterval significand exponent).shortest (-60) 100

def Decimal.text (d : Decimal) : String :=
  let digits := Nat.toDigits 10 d.digits
  if 0 ≤ d.exponent then
    String.ofList (digits ++ List.replicate d.exponent.toNat '0')
  else
    let places := (-d.exponent).toNat
    let padded := List.replicate (places + 1 - digits.length) '0' ++ digits
    let whole := padded.length - places
    String.ofList (padded.take whole ++ '.' :: padded.drop whole)

def text (x : Float32) : String :=
  let signed (negative : Bool) (s : String) : String := if negative then "-" ++ s else s
  match value x with
  | .nan => "NaN"
  | .infinite negative => signed negative "inf"
  | .finite negative 0 _ => signed negative "0"
  | .finite negative significand exponent =>
    signed negative (shortestDecimal significand exponent).text

end BattleTree.Binary32
