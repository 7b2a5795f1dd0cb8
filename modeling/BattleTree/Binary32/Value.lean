/-!
This module contains the exact value of a single-precision number, read off its bits, and the way
back: the number whose bits stand for a given significand and exponent.
-/

namespace BattleTree.Binary32

inductive Value where
  | nan
  | infinite (negative : Bool)
  | finite (negative : Bool) (significand : Nat) (exponent : Int)
  deriving DecidableEq, Repr

def minExponent : Int := -149

def infinityBits : Nat := 0x7f800000

def value (x : Float32) : Value :=
  let bits := x.toBits.toNat
  let negative := decide (Nat.pow 2 31 ≤ bits)
  let biased : Nat := bits / Nat.pow 2 23 % Nat.pow 2 8
  let fraction := bits % Nat.pow 2 23
  if biased = 255 then
    if fraction = 0 then .infinite negative else .nan
  else if biased = 0 then
    .finite negative fraction minExponent
  else
    .finite negative (fraction + Nat.pow 2 23) ((biased : Int) - 150)

/--
The number `significand · 2 ^ exponent`, for a significand of at most 24 bits that is either
normalized or has the least exponent. A significand of `2 ^ 24` carries into the exponent, and
whatever is too large becomes infinite.
-/
def ofParts (significand : Nat) (exponent : Int) : Float32 :=
  let bits := (exponent - minExponent).toNat * Nat.pow 2 23 + significand
  Float32.ofBits (UInt32.ofNat (min bits infinityBits))

end BattleTree.Binary32
