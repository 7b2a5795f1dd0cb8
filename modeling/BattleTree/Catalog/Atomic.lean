import BattleTree.Catalog.Region

/-!
This module contains the catalog: the leaves of behavior trees with their parameters.
-/

namespace BattleTree

inductive AttackTarget where
  | qualified (qualifier : Qualifier)
  | slot (slot : UInt64)
  deriving DecidableEq, Repr

inductive Atomic where
  | attack (target : AttackTarget) (unit : Option UnitType)
  | moveRelative (course : Course) (qualifier : Qualifier) (team : Team) (unit : Option UnitType)
  | moveCenter
  | moveHeading (heading : Heading)
  | stand
  | explore
  | inRegion (region : Region)
  | inSight (team : Team) (unit : Option UnitType)
  | inReach (team : Team) (unit : Option UnitType)
  | isArmed (subject : Subject)
  | isDying (subject : Subject) (level : HealthLevel)
  | isType (negation : Negation) (unit : UnitType)
  | isFlock (team : Team) (direction : Direction)
  | hasObstacle (heading : Heading)
  deriving DecidableEq, Repr

namespace Atomic

def name : Atomic → String
  | attack .. => "attack"
  | moveRelative .. | moveCenter | moveHeading .. => "move"
  | stand => "stand"
  | explore => "explore"
  | inRegion .. => "in_region"
  | inSight .. => "in_sight"
  | inReach .. => "in_reach"
  | isArmed .. => "is_armed"
  | isDying .. => "is_dying"
  | isType .. => "is_type"
  | isFlock .. => "is_flock"
  | hasObstacle .. => "has_obstacle"

def isAction : Atomic → Bool
  | attack .. | moveRelative .. | moveCenter | moveHeading .. | stand | explore => true
  | inRegion .. | inSight .. | inReach .. | isArmed .. | isDying .. | isType .. | isFlock ..
  | hasObstacle .. => false

end Atomic

end BattleTree
