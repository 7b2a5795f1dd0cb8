import BattleTree.Violation

/-!
This module contains the faults that stop an operation: a caller broke a promise that the operation
does not report as a value.
-/

namespace BattleTree

inductive Fault where
  | terrainEmpty
  | terrainRagged
  | rowRange (start stop rows : Nat)
  | foreignView (violation : Violation)
  | outOfRange
  | overflow
  | tooLarge
  deriving DecidableEq, Repr

def Fault.message? : Fault → Option String
  | terrainEmpty => some "terrain must be non-empty"
  | terrainRagged => some "terrain rows must have equal length"
  | rowRange start stop rows => some s!"row range {start}..{stop} exceeds {rows} rows"
  | foreignView violation => some violation.message
  | outOfRange | overflow | tooLarge => none

inductive Refusal where
  | violation (violation : Violation)
  | fault (fault : Fault)
  deriving DecidableEq, Repr

def requireAddressable (bytes : Nat) : Except Fault Unit :=
  if bytes < Nat.pow 2 63 then .ok () else .error .tooLarge

def subtract (minuend subtrahend : Nat) : Except Fault Nat :=
  if subtrahend ≤ minuend then .ok (minuend - subtrahend) else .error .overflow

end BattleTree
