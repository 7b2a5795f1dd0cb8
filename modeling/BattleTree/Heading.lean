import BattleTree.Action

/-!
This module contains the four cardinal headings and the rule that sorts a relative position into the
quadrant of one of them.
-/

namespace BattleTree

inductive Heading where
  | north
  | east
  | south
  | west
  deriving DecidableEq, Repr, Inhabited

namespace Heading

def all : List Heading :=
  [north, east, south, west]

def action : Heading → Action
  | north => .north
  | east => .east
  | south => .south
  | west => .west

def opposite : Heading → Heading
  | north => south
  | east => west
  | south => north
  | west => east

/--
The quadrant of a relative position. The two diagonals bound the quadrants: east lies below the
rising and above the falling one. A point on a diagonal or without an order counts as not below and
not above.
-/
def ofOffset (x y : Float32) : Heading :=
  match decide (x > y), decide (x > -y) with
  | true, true => east
  | true, false => south
  | false, true => north
  | false, false => west

@[simp]
theorem opposite_opposite (heading : Heading) : heading.opposite.opposite = heading := by
  cases heading <;> rfl

theorem mem_all (heading : Heading) : heading ∈ all := by
  cases heading <;> decide

end Heading

end BattleTree
