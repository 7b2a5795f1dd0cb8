import BattleTree.Serial.Tags

/-!
This module contains the serialized form of terrains, environments, agents and layouts. A serialized
raster is taken as it is, even if not all cells of the map are listed.
-/

namespace BattleTree

open Serial

instance : Serial Raster where
  encode t :=
    .record [("width", .count t.width), ("height", .count t.height),
      ("blocked", encode t.blocked.toList)]
  decode v := do
    let fields ← v.fields? ["width", "height", "blocked"]
    let blocked ← required fields "blocked" (decode : Value → Option (List Bool))
    return {
      width := ← required fields "width" Value.smallCount?
      height := ← required fields "height" Value.smallCount?
      blocked := blocked.toArray }

structure EnvironmentRecord extends Setting where
  terrain : Raster
  deriving DecidableEq, Repr

def Environment.record (e : Environment) : EnvironmentRecord :=
  { e.toSetting with terrain := e.terrain.toRaster }

instance : Serial EnvironmentRecord where
  encode e :=
    .record [("num_allies", .count e.allies), ("num_enemies", .count e.enemies),
      ("map_width", .count e.mapWidth), ("map_height", .count e.mapHeight),
      ("time_per_step", encode e.timePerStep),
      ("world_steps_per_env_step", .count e.worldSteps), ("terrain", encode e.terrain)]
  decode v := do
    let fields ← v.fields? ["num_allies", "num_enemies", "map_width", "map_height",
      "time_per_step", "world_steps_per_env_step", "terrain"]
    return {
      allies := ← required fields "num_allies" Value.count?
      enemies := ← required fields "num_enemies" Value.count?
      mapWidth := ← required fields "map_width" Value.smallCount?
      mapHeight := ← required fields "map_height" Value.smallCount?
      timePerStep := ← required fields "time_per_step" decode
      worldSteps := ← required fields "world_steps_per_env_step" Value.smallCount?
      terrain := ← required fields "terrain" decode }

instance : Serial Agent where
  encode a :=
    .record [("agent_id", encode a.id), ("side", encode a.side), ("velocity", encode a.velocity),
      ("sight_range", encode a.sightRange), ("attack_range", encode a.attackRange)]
  decode v := do
    let fields ← v.fields? ["agent_id", "side", "velocity", "sight_range", "attack_range"]
    return {
      id := ← required fields "agent_id" decode
      side := ← required fields "side" decode
      velocity := ← required fields "velocity" decode
      sightRange := ← required fields "sight_range" decode
      attackRange := ← required fields "attack_range" decode }

instance : Serial Layout where
  encode l :=
    .record [("other_rows", .count l.otherRows), ("other_width", .count l.otherWidth),
      ("self_width", .count l.selfWidth), ("num_types", .count l.numTypes),
      ("health", .count l.health), ("position", .count l.position),
      ("other_cooldown", .count l.otherCooldown), ("self_cooldown", .count l.selfCooldown)]
  decode v := do
    let fields ← v.fields? ["other_rows", "other_width", "self_width", "num_types", "health",
      "position", "other_cooldown", "self_cooldown"]
    return {
      otherRows := ← required fields "other_rows" Value.count?
      otherWidth := ← required fields "other_width" Value.count?
      selfWidth := ← required fields "self_width" Value.count?
      numTypes := ← required fields "num_types" Value.count?
      health := ← required fields "health" Value.count?
      position := ← required fields "position" Value.count?
      otherCooldown := ← required fields "other_cooldown" Value.count?
      selfCooldown := ← required fields "self_cooldown" Value.count? }

end BattleTree
