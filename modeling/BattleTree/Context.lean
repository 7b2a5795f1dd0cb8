import BattleTree.Environment
import BattleTree.Observation.View
import BattleTree.Random
import BattleTree.Terrain.Crossing

/-!
This module contains contexts: what a tick knows besides the observation.
-/

namespace BattleTree

structure Context where
  env : Environment
  agent : Agent
  tick : UInt64
  seed : UInt64
  deriving DecidableEq, Repr

namespace Context

def ofAgent (env : Environment) (agent : Agent) : Except Violation Context := do
  env.validate
  requirePositive "velocity" agent.velocity
  requirePositive "sight_range" agent.sightRange
  requirePositive "attack_range" agent.attackRange
  return { env, agent, tick := 0, seed := 0 }

def atTick (c : Context) (tick seed : UInt64) : Context :=
  { c with tick, seed }

def ownTeamSize (c : Context) : Nat :=
  c.env.teamSize c.agent.side

def foeTeamSize (c : Context) : Nat :=
  match c.agent.side with
  | .ally => c.env.enemies
  | .enemy => c.env.allies

def friendRows (c : Context) : RowRange :=
  ⟨0, c.ownTeamSize - 1⟩

def foeRows (c : Context) : RowRange :=
  ⟨c.ownTeamSize - 1, c.ownTeamSize - 1 + c.foeTeamSize⟩

def observe (c : Context) (data : Array Float32) (layout : Layout) : Except Refusal View := do
  c.env.checkLayout layout
  View.ofData data layout c.friendRows.stop

def check (c : Context) (v : View) : Except Violation Unit :=
  if v.friendRows = c.friendRows ∧ v.foeRows = c.foeRows then
    .ok ()
  else
    .error (.viewMismatch v.friendRows.size v.foeRows.size c.friendRows.size c.foeRows.size)

def reach (c : Context) : Float32 :=
  c.agent.attackRange / c.agent.sightRange

def stepLength (c : Context) : Float32 :=
  c.agent.velocity * c.env.timePerStep * Float32.ofNat c.env.worldSteps

def mapSize (c : Context) : Point Float32 :=
  ⟨Float32.ofNat c.env.mapWidth, Float32.ofNat c.env.mapHeight⟩

def stream (c : Context) : Stream :=
  .forAgent c.seed c.agent.id c.tick

end Context

end BattleTree
