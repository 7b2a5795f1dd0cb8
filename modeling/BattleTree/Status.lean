/-!
This module contains the three results that a node of a behavior tree can report.
-/

namespace BattleTree

inductive Status where
  | success
  | failure
  | running
  deriving DecidableEq, Repr, Inhabited

namespace Status

def ofBool (ok : Bool) : Status :=
  if ok then success else failure

def isSuccess (status : Status) : Bool :=
  status = success

def isFailure (status : Status) : Bool :=
  status = failure

def code : Status → UInt32
  | success => 0
  | failure => 1
  | running => 2

@[simp]
theorem ofBool_true : ofBool true = success := rfl

@[simp]
theorem ofBool_false : ofBool false = failure := rfl

theorem ofBool_eq_success_iff {ok : Bool} : ofBool ok = success ↔ ok = true := by
  cases ok <;> simp

theorem ofBool_eq_failure_iff {ok : Bool} : ofBool ok = failure ↔ ok = false := by
  cases ok <;> simp

theorem ofBool_ne_running {ok : Bool} : ofBool ok ≠ running := by
  cases ok <;> simp

end Status

end BattleTree
