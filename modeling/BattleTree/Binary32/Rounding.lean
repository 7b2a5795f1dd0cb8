/-!
This module contains rounding to a number of significant bits, with ties to the even neighbour, and
the integer square root that the distance of two coordinates needs.
-/

namespace BattleTree.Binary32

/--
A nonnegative number: `significand · 2 ^ exponent`, or a number less than one unit of the last place
above that if it is not `exact`.
-/
structure Magnitude where
  significand : Nat
  exponent : Int
  exact : Bool := true
  deriving DecidableEq, Repr

def bitLength (n : Nat) : Nat :=
  if n = 0 then 0 else n.log2 + 1

namespace Magnitude

def dropBits (m : Magnitude) (count : Nat) : Magnitude :=
  let quotient := m.significand / Nat.pow 2 count
  let remainder := m.significand % Nat.pow 2 count
  let half := Nat.pow 2 count / 2
  let up := 0 < count &&
    (half < remainder || (remainder = half && (!m.exact || quotient % 2 = 1)))
  { significand := if up then quotient + 1 else quotient, exponent := m.exponent + count }

def roundTo (m : Magnitude) (bits : Nat) (least : Int) : Magnitude :=
  m.dropBits (max (bitLength m.significand - bits) (least - m.exponent).toNat)

def normalize (m : Magnitude) (bits : Nat) (least : Int) : Magnitude :=
  let shift := min (bits - bitLength m.significand) (m.exponent - least).toNat
  { m with significand := m.significand * Nat.pow 2 shift, exponent := m.exponent - shift }

end Magnitude

/--
The largest `r` with `r * r ≤ n` among those that agree with `root` above the lowest `places` bits.
-/
def squareRootFrom (n : Nat) : (places : Nat) → (root : Nat) → Nat
  | 0, root => root
  | places + 1, root =>
    let next := root + Nat.pow 2 places
    squareRootFrom n places (if next * next ≤ n then next else root)

def squareRoot (n : Nat) : Nat :=
  squareRootFrom n ((bitLength n + 1) / 2) 0

def Magnitude.sqrt (m : Magnitude) (bits : Nat) : Magnitude :=
  let parity := (m.exponent % 2).toNat
  let shift := 2 * bits + parity
  let scaled := m.significand * Nat.pow 2 shift
  let root := squareRoot scaled
  { significand := root, exponent := (m.exponent - shift) / 2, exact := root * root = scaled }

end BattleTree.Binary32
