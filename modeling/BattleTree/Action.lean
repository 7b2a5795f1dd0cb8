/-!
This module contains the action codes that are handed to the simulation: four moves, standing still,
and one attack per slot of the foe segment of an observation.
-/

namespace BattleTree

/--
A discrete action code. Codes `0` to `3` move north, east, south and west, `4` stands still, and
`5 + slot` attacks the foe in `slot`. Other users of a code never look inside it.
-/
structure Action where
  code : UInt32
  deriving DecidableEq, Repr

namespace Action

def north : Action := ⟨0⟩
def east : Action := ⟨1⟩
def south : Action := ⟨2⟩
def west : Action := ⟨3⟩
def stand : Action := ⟨4⟩

instance : Inhabited Action := ⟨stand⟩

def firstAttack : Nat := 5

def attack? (slot : Nat) : Option Action :=
  if slot + firstAttack < UInt32.size then some ⟨UInt32.ofNat (slot + firstAttack)⟩ else none

def attackSlot? (action : Action) : Option Nat :=
  if firstAttack ≤ action.code.toNat then some (action.code.toNat - firstAttack) else none

def isStand (action : Action) : Bool :=
  action = stand

theorem attackSlot?_of_attack? {slot : Nat} {action : Action} (h : attack? slot = some action) :
    action.attackSlot? = some slot := by
  unfold attack? at h
  split at h
  · next hlt =>
    obtain rfl := Option.some.inj h
    have hcode : (UInt32.ofNat (slot + firstAttack)).toNat = slot + firstAttack :=
      UInt32.toNat_ofNat_of_lt hlt
    rw [attackSlot?, hcode, if_pos (Nat.le_add_left ..), Nat.add_sub_cancel]
  · simp at h

end Action

end BattleTree
