/-!
This module contains the values that data is serialized to.
-/

namespace BattleTree

inductive Value where
  | null
  | bool (b : Bool)
  | int (n : Int)
  | real (x : Float32)
  | text (s : String)
  | list (values : List Value)
  | record (fields : List (String × Value))
  deriving Repr, Inhabited

/--
How names can be spelled. Data inside a node of a syntax tree is read leniently: some names can be
given by their number, and the absence of contents as a record without fields.
-/
inductive Spelling where
  | strict
  | lenient
  deriving DecidableEq, Repr

namespace Value

/-- Named values; of several with one name the first one counts. -/
abbrev Fields := List (String × Value)

def fields? (names : List String) : Value → Option Fields
  | record fields => some fields
  | list values => if values.length = names.length then some (names.zip values) else none
  | _ => none

def alternative? : Value → Option (String × Option Value)
  | text name => some (name, none)
  | record [(name, contents)] => some (name, some contents)
  | _ => none

def isUnit (spelling : Spelling) : Value → Bool
  | null => true
  | record fields => spelling = .lenient && fields.isEmpty
  | _ => false

def plainAlternative? (spelling : Spelling) (v : Value) : Option String := do
  let (name, contents) ← v.alternative?
  if contents.all (isUnit spelling) then some name else none

def name? (spelling : Spelling) (names : List String) : Value → Option String
  | text name => some name
  | int (Int.ofNat place) => if spelling = .lenient then names[place]? else none
  | _ => none

def count (n : Nat) : Value :=
  int n

def natBelow? (bound : Nat) : Value → Option Nat
  | int (Int.ofNat n) => if n < bound then some n else none
  | _ => none

def count? : Value → Option Nat :=
  natBelow? UInt64.size

def smallCount? : Value → Option Nat :=
  natBelow? UInt32.size

@[simp]
theorem natBelow?_count {bound n : Nat} (h : n < bound) : natBelow? bound (count n) = some n := by
  simp [natBelow?, count, h]

end Value

end BattleTree
