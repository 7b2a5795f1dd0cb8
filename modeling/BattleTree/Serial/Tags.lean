import BattleTree.Catalog.Atomic
import BattleTree.Catalog.Transform
import BattleTree.Environment
import BattleTree.Serial.Codec
import BattleTree.Trace.Event

/-!
This module contains the names that plain alternatives are serialized to.
-/

namespace BattleTree

instance : Tagged Status where
  all := [.success, .failure, .running]
  tag
    | .success => "Success"
    | .failure => "Failure"
    | .running => "Running"

instance : Tagged Heading where
  all := Heading.all
  tag
    | .north => "North"
    | .east => "East"
    | .south => "South"
    | .west => "West"

instance : Tagged Side where
  all := [.ally, .enemy]
  tag
    | .ally => "Ally"
    | .enemy => "Enemy"

instance : Tagged Qualifier where
  all := Keyword.all
  tag
    | .closest => "Closest"
    | .furthest => "Furthest"
    | .strongest => "Strongest"
    | .weakest => "Weakest"

instance : Tagged UnitType where
  all := Keyword.all
  tag
    | .marine => "Marine"
    | .marauder => "Marauder"
    | .stalker => "Stalker"
    | .zealot => "Zealot"
    | .zergling => "Zergling"
    | .hydralisk => "Hydralisk"

instance : Tagged Team where
  all := Keyword.all
  tag
    | .foe => "Foe"
    | .friend => "Friend"

instance : Tagged Subject where
  all := Keyword.all
  tag
    | .own => "Own"
    | .foe => "Foe"
    | .friend => "Friend"

instance : Tagged HealthLevel where
  all := Keyword.all
  tag
    | .low => "Low"
    | .middle => "Middle"
    | .high => "High"

instance : Tagged Negation where
  all := Keyword.all
  tag
    | .a => "A"
    | .notA => "NotA"

instance : Tagged Course where
  all := Keyword.all
  tag
    | .toward => "Toward"
    | .awayFrom => "AwayFrom"

instance : Tagged Direction where
  all := Keyword.all
  tag
    | .north => "North"
    | .east => "East"
    | .south => "South"
    | .west => "West"
    | .center => "Center"

instance : Tagged Transform where
  all := Keyword.all
  tag
    | .invert => "Invert"
    | .forceSuccess => "ForceSuccess"
    | .forceFailure => "ForceFailure"

instance : Tagged EventKind where
  all := Keyword.all
  tag
    | .leaf => "leaf"
    | .decorator => "decorator"
    | .fired => "fired"

end BattleTree
