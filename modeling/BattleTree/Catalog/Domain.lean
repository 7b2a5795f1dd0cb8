import BattleTree.Catalog.Keyword
import BattleTree.Heading

/-!
This module contains the domains that the parameters of the catalog are taken from.
-/

namespace BattleTree

inductive Qualifier where
  | closest
  | furthest
  | strongest
  | weakest
  deriving DecidableEq, Repr

namespace Qualifier

instance : Parameter Qualifier where
  what := "qualifier"
  all := [closest, furthest, strongest, weakest]
  spelling
    | closest => "closest"
    | furthest => "furthest"
    | strongest => "strongest"
    | weakest => "weakest"

def byHealth : Qualifier → Bool
  | closest | furthest => false
  | strongest | weakest => true

def prefersLeast : Qualifier → Bool
  | closest | weakest => true
  | furthest | strongest => false

end Qualifier

inductive UnitType where
  | marine
  | marauder
  | stalker
  | zealot
  | zergling
  | hydralisk
  deriving DecidableEq, Repr

namespace UnitType

instance : Parameter UnitType where
  what := "unit type"
  all := [marine, marauder, stalker, zealot, zergling, hydralisk]
  spelling
    | marine => "marine"
    | marauder => "marauder"
    | stalker => "stalker"
    | zealot => "zealot"
    | zergling => "zergling"
    | hydralisk => "hydralisk"

def index : UnitType → Nat
  | marine => 0
  | marauder => 1
  | stalker => 2
  | zealot => 3
  | zergling => 4
  | hydralisk => 5

def count : Nat := 6

theorem index_lt_count (unit : UnitType) : unit.index < count := by
  cases unit <;> decide

end UnitType

inductive Team where
  | foe
  | friend
  deriving DecidableEq, Repr

namespace Team

instance : Parameter Team where
  what := "team"
  all := [foe, friend]
  spelling
    | foe => "foe"
    | friend => "friend"

end Team

inductive Subject where
  | own
  | foe
  | friend
  deriving DecidableEq, Repr

namespace Subject

instance : Parameter Subject where
  what := "subject"
  all := [own, foe, friend]
  spelling
    | own => "self"
    | foe => "foe"
    | friend => "friend"

def team? : Subject → Option Team
  | own => none
  | foe => some .foe
  | friend => some .friend

end Subject

inductive HealthLevel where
  | low
  | middle
  | high
  deriving DecidableEq, Repr

namespace HealthLevel

instance : Parameter HealthLevel where
  what := "hp level"
  all := [low, middle, high]
  spelling
    | low => "low"
    | middle => "middle"
    | high => "high"

def threshold : HealthLevel → Float32
  | low => 0.25
  | middle => 0.5
  | high => 0.75

end HealthLevel

inductive Negation where
  | a
  | notA
  deriving DecidableEq, Repr

namespace Negation

instance : Parameter Negation where
  what := "negation"
  all := [a, notA]
  spelling
    | a => "a"
    | notA => "not_a"

def apply : Negation → Bool → Bool
  | a, holds => holds
  | notA, holds => !holds

end Negation

inductive Course where
  | toward
  | awayFrom
  deriving DecidableEq, Repr

namespace Course

instance : Parameter Course where
  what := "course"
  all := [toward, awayFrom]
  spelling
    | toward => "toward"
    | awayFrom => "away_from"

def steer : Course → Heading → Heading
  | toward, heading => heading
  | awayFrom, heading => heading.opposite

end Course

inductive Direction where
  | north
  | east
  | south
  | west
  | center
  deriving DecidableEq, Repr

namespace Direction

instance : Parameter Direction where
  what := "direction"
  all := [north, east, south, west, center]
  spelling
    | north => "north"
    | east => "east"
    | south => "south"
    | west => "west"
    | center => "center"

def heading? : Direction → Option Heading
  | north => some .north
  | east => some .east
  | south => some .south
  | west => some .west
  | center => none

end Direction

end BattleTree
