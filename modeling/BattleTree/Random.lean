/-!
This module contains the random streams of the stochastic leaves. A stream is keyed by a seed, an
agent and a tick, so that a tick stays a function of its inputs and no two agents share a state.
-/

namespace BattleTree

structure Stream where
  state : UInt64
  deriving DecidableEq, Repr

namespace Stream

def gamma : UInt64 := 0x9E3779B97F4A7C15

def xorShift (shift : UInt64) (word : UInt64) : UInt64 :=
  word ^^^ (word >>> shift)

def mix (word : UInt64) : UInt64 :=
  let word := xorShift 30 word * 0xBF58476D1CE4E5B9
  let word := xorShift 27 word * 0x94D049BB133111EB
  xorShift 31 word

def forAgent (seed agent tick : UInt64) : Stream :=
  ⟨mix (seed ^^^ mix (agent + gamma) ^^^ mix tick)⟩

def next (s : Stream) : UInt64 × Stream :=
  let state := s.state + gamma
  (mix state, ⟨state⟩)

def scale (word : UInt64) (bound : UInt32) : UInt32 :=
  (((word >>> 32) * bound.toUInt64) >>> 32).toUInt32

def nextBelow (s : Stream) (bound : UInt32) : UInt32 × Stream :=
  let (word, s) := s.next
  (scale word bound, s)

def choose {α : Type} (s : Stream) (items : List α) : Option α × Stream :=
  if 0 < items.length ∧ items.length < UInt32.size then
    let (index, s) := s.nextBelow (UInt32.ofNat items.length)
    (items[index.toNat]?, s)
  else
    (none, s)

theorem toNat_scale (word : UInt64) (bound : UInt32) :
    (scale word bound).toNat = word.toNat / UInt32.size * bound.toNat / UInt32.size := by
  have hword := word.toNat_lt
  have hbound := bound.toNat_lt
  have hhigh : word.toNat / 4294967296 < 4294967296 := by omega
  have hproduct : word.toNat / 4294967296 * bound.toNat < 4294967296 * 4294967296 :=
    Nat.mul_lt_mul'' hhigh hbound
  unfold scale UInt32.size
  simp only [UInt64.toNat_toUInt32, UInt64.toNat_shiftRight, UInt64.toNat_mul,
    UInt32.toNat_toUInt64, Nat.shiftRight_eq_div_pow]
  simp
  omega

theorem toNat_scale_lt (word : UInt64) {bound : UInt32} (h : 0 < bound.toNat) :
    (scale word bound).toNat < bound.toNat := by
  have hword := word.toNat_lt
  rw [toNat_scale, Nat.div_lt_iff_lt_mul (by decide), Nat.mul_comm bound.toNat]
  apply Nat.mul_lt_mul_of_pos_right _ h
  unfold UInt32.size
  omega

end Stream

end BattleTree
