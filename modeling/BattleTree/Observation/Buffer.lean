import BattleTree.Observation.Layout

/-!
This module contains an observation vector under construction, with setters for the features that a
layout declares. The vector is flat: a setter computes places in it and refuses those outside, but a
column past the end of a row is a place in the next row.
-/

namespace BattleTree

structure Buffer where
  layout : Layout
  data : Array Float32
  size_eq : data.size = layout.length
  deriving DecidableEq, Repr

def featureBytes : Nat := 4

def zeroFrom (data : Array Float32) (start : Nat) : (count : Nat) → Array Float32
  | 0 => data
  | count + 1 => (zeroFrom data start count).setIfInBounds (start + count) 0

theorem size_zeroFrom (data : Array Float32) (start count : Nat) :
    (zeroFrom data start count).size = data.size := by
  induction count with
  | zero => rfl
  | succ count ih => rw [zeroFrom, Array.size_setIfInBounds, ih]

namespace Buffer

def ofLayout (layout : Layout) : Except Fault Buffer := do
  requireAddressable (featureBytes * layout.length)
  return { layout, data := Array.replicate layout.length 0, size_eq := Array.size_replicate }

def write (b : Buffer) (index : Nat) (value : Float32) : Except Fault Buffer :=
  if index < b.data.size then
    .ok { b with
      data := b.data.setIfInBounds index value
      size_eq := by rw [Array.size_setIfInBounds, b.size_eq] }
  else
    .error .outOfRange

def zero (b : Buffer) (start stop : Nat) : Except Fault Buffer :=
  if start ≤ stop ∧ stop ≤ b.data.size then
    .ok { b with
      data := zeroFrom b.data start (stop - start)
      size_eq := by rw [size_zeroFrom, b.size_eq] }
  else
    .error .outOfRange

def selfBase (b : Buffer) : Except Fault Nat :=
  subtract b.data.size b.layout.selfWidth

def rowBase (b : Buffer) (row : Nat) : Nat :=
  row * b.layout.otherWidth

def writeReadings (b : Buffer) (base cooldownColumn : Nat) (health x y cooldown : Float32) :
    Except Fault Buffer := do
  let b ← b.write (base + b.layout.health) health
  let b ← b.write (base + b.layout.position) x
  let b ← b.write (base + b.layout.position + 1) y
  b.write (base + cooldownColumn) cooldown

/--
Zero the type flags of the segment at `base` and raise one of them. Segments that are narrower than
the flags of the known types have no column for them.
-/
def writeType (b : Buffer) (base width unit : Nat) : Except Fault Buffer := do
  let b ← b.zero (← subtract (base + width) b.layout.numTypes) (base + width)
  b.write (base + (← Layout.typeColumn width unit)) 1

def setSelf (b : Buffer) (health x y cooldown : Float32) : Except Fault Buffer := do
  b.writeReadings (← b.selfBase) b.layout.selfCooldown health x y cooldown

def setSelfType (b : Buffer) (unit : Nat) : Except Fault Buffer := do
  b.writeType (← b.selfBase) b.layout.selfWidth unit

def setRow (b : Buffer) (row : Nat) (health x y cooldown : Float32) : Except Fault Buffer :=
  b.writeReadings (b.rowBase row) b.layout.otherCooldown health x y cooldown

def setRowType (b : Buffer) (row unit : Nat) : Except Fault Buffer :=
  b.writeType (b.rowBase row) b.layout.otherWidth unit

def clearRow (b : Buffer) (row : Nat) : Except Fault Buffer :=
  b.zero (b.rowBase row) (b.rowBase (row + 1))

end Buffer

end BattleTree
