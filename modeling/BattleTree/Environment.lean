import BattleTree.Observation.Layout
import BattleTree.Terrain.Basic

/-!
This module contains the facts about a run: the environment that all agents share, and the agents.
-/

namespace BattleTree

inductive Side where
  | ally
  | enemy
  deriving DecidableEq, Repr

structure Setting where
  allies : Nat
  enemies : Nat
  mapWidth : Nat
  mapHeight : Nat
  timePerStep : Float32
  worldSteps : Nat
  deriving DecidableEq, Repr

structure Environment extends Setting where
  terrain : Terrain
  deriving DecidableEq, Repr

structure Agent where
  id : UInt64
  side : Side
  velocity : Float32
  sightRange : Float32
  attackRange : Float32
  deriving DecidableEq, Repr

def requirePositive (field : String) (value : Float32) : Except Violation Unit :=
  if value.isFinite ∧ value > 0 then .ok () else .error (.nonPositive field value)

def requireSome (field : String) (count : Nat) : Except Violation Unit :=
  if 0 < count then .ok () else .error (.nonPositive field 0)

namespace Environment

def ofTerrain (allies enemies : Nat) (terrain : Terrain) : Environment :=
  { allies, enemies, terrain
    mapWidth := terrain.width
    mapHeight := terrain.height
    timePerStep := 1 / 16
    worldSteps := 8 }

def withTiming (e : Environment) (timePerStep : Float32) (worldSteps : Nat) : Environment :=
  { e with timePerStep, worldSteps }

def teamSize (e : Environment) : Side → Nat
  | .ally => e.allies
  | .enemy => e.enemies

def validate (e : Environment) : Except Violation Unit := do
  unless e.terrain.width = e.mapWidth ∧ e.terrain.height = e.mapHeight do
    throw (.terrainShape e.mapWidth e.mapHeight e.terrain.width e.terrain.height)
  requireSome "num_allies" e.allies
  requireSome "num_enemies" e.enemies
  requirePositive "time_per_step" e.timePerStep
  requireSome "world_steps_per_env_step" e.worldSteps

def checkLayout (e : Environment) (l : Layout) : Except Refusal Unit :=
  let expected := e.allies + e.enemies - 1
  if l.otherRows = expected then
    l.validate
  else
    .error (.violation (.teamSizes l.otherRows e.allies e.enemies expected))

end Environment

end BattleTree
