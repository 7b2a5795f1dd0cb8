import BattleTree.Catalog.Keyword
import BattleTree.Environment
import BattleTree.Text.Path

/-!
This module contains the parameters that are fixed for a run.
-/

namespace BattleTree

structure RunConfig where
  envs : Nat
  trees : Nat
  steps : Nat
  allies : Nat
  enemies : Nat
  bank : String
  deriving DecidableEq, Repr

inductive RunCount where
  | envs
  | trees
  | steps
  | allies
  | enemies
  deriving DecidableEq, Repr

instance : Keyword RunCount where
  all := [.envs, .trees, .steps, .allies, .enemies]
  spelling
    | .envs => "n_envs"
    | .trees => "n_trees"
    | .steps => "n_steps"
    | .allies => "n_allies"
    | .enemies => "n_enemies"

namespace RunConfig

def standard : RunConfig :=
  { envs := 1, trees := 1, steps := 100, allies := 10, enemies := 10, bank := "bank" }

instance : Inhabited RunConfig := ⟨standard⟩

def count (c : RunConfig) : RunCount → Nat
  | .envs => c.envs
  | .trees => c.trees
  | .steps => c.steps
  | .allies => c.allies
  | .enemies => c.enemies

def setCount (c : RunConfig) (n : Nat) : RunCount → RunConfig
  | .envs => { c with envs := n }
  | .trees => { c with trees := n }
  | .steps => { c with steps := n }
  | .allies => { c with allies := n }
  | .enemies => { c with enemies := n }

def validate (c : RunConfig) : Except RunCount Unit :=
  match (Keyword.all : List RunCount).find? fun field => c.count field = 0 with
  | some field => .error field
  | none => .ok ()

def batchSize (c : RunConfig) : Nat :=
  c.envs * c.trees

def treeIndex (c : RunConfig) (slot : Nat) : Nat :=
  slot % c.trees

def bankPath (c : RunConfig) (root : String) : String :=
  Path.join root c.bank

def layout (c : RunConfig) : Layout :=
  .standard c.allies c.enemies

def environment (c : RunConfig) (terrain : Terrain) : Environment :=
  .ofTerrain c.allies c.enemies terrain

theorem validate_eq_ok_iff {c : RunConfig} : c.validate = .ok () ↔ ∀ field, 0 < c.count field := by
  have hall : ∀ field : RunCount, field ∈ (Keyword.all : List RunCount) := by
    intro field
    cases field <;> simp [Keyword.all]
  unfold validate
  split
  · next field h =>
    have hzero : c.count field = 0 := by simpa using List.find?_some h
    simp only [reduceCtorEq, false_iff]
    intro hpos
    exact absurd (hpos field) (by simp [hzero])
  · next h =>
    simp only [true_iff]
    intro field
    have := List.find?_eq_none.mp h field (hall field)
    simp only [decide_eq_true_eq] at this
    exact Nat.pos_of_ne_zero this

end RunConfig

end BattleTree
