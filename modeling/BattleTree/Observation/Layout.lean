import BattleTree.Catalog.Domain
import BattleTree.Fault

/-!
This module contains the layout of an observation vector: rows of features for the other agents,
followed by one segment for the observer itself.
-/

namespace BattleTree

/--
Where the features of an observation are. `position` is the column of the x coordinate, and y
follows it. Both kinds of segments end with `numTypes` columns of unit type flags.
-/
structure Layout where
  otherRows : Nat
  otherWidth : Nat
  selfWidth : Nat
  numTypes : Nat
  health : Nat
  position : Nat
  otherCooldown : Nat
  selfCooldown : Nat
  deriving DecidableEq, Repr

namespace Layout

def standard (allies enemies : Nat) : Layout :=
  { otherRows := allies + enemies - 1
    otherWidth := 13
    selfWidth := 10
    numTypes := UnitType.count
    health := 0
    position := 1
    otherCooldown := 6
    selfCooldown := 3 }

def length (l : Layout) : Nat :=
  l.otherRows * l.otherWidth + l.selfWidth

def boundedLength (l : Layout) : Except Fault Nat :=
  if l.length < Nat.pow 2 64 then .ok l.length else .error .overflow

def typeColumn (width : Nat) (unit : Nat) : Except Fault Nat := do
  return (← subtract width UnitType.count) + unit

def requirements (l : Layout) (y : Nat) : List (String × Nat × Nat) :=
  let narrower := min l.otherWidth l.selfWidth
  [("num_types", UnitType.count - 1, l.numTypes),
   ("health", l.health, narrower),
   ("position", y, narrower),
   ("other_cooldown", l.otherCooldown, l.otherWidth),
   ("self_cooldown", l.selfCooldown, l.selfWidth),
   ("num_types", l.numTypes - 1, l.otherWidth),
   ("num_types", l.numTypes - 1, l.selfWidth),
   ("self_width", 0, l.selfWidth)]

def validateWith (l : Layout) (y : Nat) : Except Violation Unit :=
  match (l.requirements y).find? fun (_, index, width) => width ≤ index with
  | some (field, index, width) => .error (.featureIndex field index width)
  | none => .ok ()

def validate (l : Layout) : Except Refusal Unit :=
  if l.position + 1 < Nat.pow 2 64 then
    (l.validateWith (l.position + 1)).mapError .violation
  else
    .error (.fault .overflow)

end Layout

end BattleTree
