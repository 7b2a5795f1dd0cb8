import BattleTree.Proofs.Bank.Batch
import BattleTree.Proofs.Observation.Acceptance
import BattleTree.Run.Config
import Mathlib.Data.List.Nodup
import Mathlib.Data.Set.Function
import Mathlib.Order.Interval.Set.Defs

/-!
This module contains what accepted run parameters are good for: the environment and the layout that
are made of them fit together, the slots of a batch are spread evenly over environments and trees,
and a bank with enough trees accepts the batch.
-/

namespace BattleTree

namespace RunConfig

variable {c : RunConfig}

theorem valid_environment (h : c.validate = .ok ()) (terrain : Terrain) :
    (c.environment terrain).Valid := by
  rw [validate_eq_ok_iff] at h
  exact {
    width_eq := rfl
    height_eq := rfl
    allies_pos := h .allies
    enemies_pos := h .enemies
    timePerStep_pos := show Positive (1 / 16) by decide
    worldSteps_pos := show 0 < 8 by decide }

theorem usable_layout (c : RunConfig) : c.layout.Usable := by
  exact Layout.validate_eq_ok_iff_usable.mp rfl

theorem exists_observe_iff_size {ctx : Context} {terrain : Terrain}
    (henv : ctx.env = c.environment terrain) (data : Array Float32) :
    (∃ v, ctx.observe data c.layout = .ok v) ↔ data.size = c.layout.length := by
  rw [Context.exists_observe_iff, henv]
  constructor
  · rintro ⟨-, -, hsize⟩
    exact hsize
  · intro hsize
    exact ⟨rfl, c.usable_layout, hsize⟩

def place (c : RunConfig) (slot : Nat) : Nat × Nat :=
  (slot / c.trees, c.treeIndex slot)

theorem treeIndex_add {env tree : Nat} (h : tree < c.trees) :
    c.treeIndex (env * c.trees + tree) = tree := by
  unfold treeIndex
  rw [Nat.mul_add_mod_self_right, Nat.mod_eq_of_lt h]

theorem place_add {env tree : Nat} (h : tree < c.trees) :
    c.place (env * c.trees + tree) = (env, tree) := by
  unfold place
  rw [treeIndex_add h, Nat.add_comm, Nat.add_mul_div_right _ _ (Nat.zero_lt_of_lt h),
    Nat.div_eq_of_lt h, Nat.zero_add]

theorem lt_batchSize {env tree : Nat} (henv : env < c.envs) (htree : tree < c.trees) :
    env * c.trees + tree < c.batchSize := by
  unfold batchSize
  calc
    env * c.trees + tree < env * c.trees + c.trees := Nat.add_lt_add_left htree _
    _ = (env + 1) * c.trees := (Nat.add_one_mul env c.trees).symm
    _ ≤ c.envs * c.trees := Nat.mul_le_mul_right _ henv

theorem bijOn_place (h : 0 < c.trees) :
    Set.BijOn c.place (Set.Iio c.batchSize) (Set.Iio c.envs ×ˢ Set.Iio c.trees) := by
  refine ⟨?mapsTo, ?injOn, ?surjOn⟩
  case mapsTo =>
    intro slot hslot
    exact ⟨(Nat.div_lt_iff_lt_mul h).mpr hslot, Nat.mod_lt slot h⟩
  case injOn =>
    intro slot _ other _ heq
    obtain ⟨henv, htree⟩ := Prod.mk.inj heq
    unfold treeIndex at htree
    rw [← Nat.div_add_mod slot c.trees, henv, htree, Nat.div_add_mod]
  case surjOn =>
    rintro ⟨env, tree⟩ ⟨henv, htree⟩
    exact ⟨env * c.trees + tree, lt_batchSize henv htree, place_add htree⟩

theorem map_treeIndex_block (c : RunConfig) (env : Nat) :
    (List.range' (env * c.trees) c.trees).map c.treeIndex = List.range c.trees := by
  have hid : ∀ tree ∈ List.range c.trees, c.treeIndex (env * c.trees + tree) = id tree := by
    intro tree htree
    exact treeIndex_add (List.mem_range.mp htree)
  rw [List.range'_eq_map_range, List.map_map]
  exact (List.map_congr_left hid).trans (List.map_id _)

theorem map_treeIndex_range (c : RunConfig) (envs : Nat) :
    (List.range (envs * c.trees)).map c.treeIndex =
      (List.replicate envs (List.range c.trees)).flatten := by
  induction envs with
  | zero =>
    rw [Nat.zero_mul]
    rfl
  | succ envs ih =>
    rw [Nat.add_one_mul, List.range_add, List.map_append, ih, ← List.range'_eq_map_range,
      map_treeIndex_block, List.replicate_succ', List.flatten_append, List.flatten_singleton]

theorem count_treeIndex {tree : Nat} (h : tree < c.trees) :
    ((List.range c.batchSize).map c.treeIndex).count tree = c.envs := by
  unfold batchSize
  rw [map_treeIndex_range, List.count_flatten, List.map_replicate,
    List.count_eq_one_of_mem List.nodup_range (List.mem_range.mpr h), List.sum_replicate_nat,
    Nat.mul_one]

def Serves (c : RunConfig) (slot : Nat) (m : BatchMember) : Prop :=
  m.index = c.treeIndex slot ∧
    ∃ terrain agent ctx tick seed data,
      Context.ofAgent (c.environment terrain) agent = .ok ctx ∧
        m.context = ctx.atTick tick seed ∧ m.context.observe data c.layout = .ok m.view

structure Fills (c : RunConfig) (members : List BatchMember) : Prop where
  length_eq : members.length = c.batchSize
  serves : ∀ slot m, members[slot]? = some m → c.Serves slot m

theorem Serves.check_eq_ok {slot : Nat} {m : BatchMember} (h : c.Serves slot m) :
    m.context.check m.view = .ok () := by
  obtain ⟨-, terrain, agent, ctx, tick, seed, data, hctx, hcontext, hview⟩ := h
  obtain ⟨henv, -, rfl⟩ := Context.ofAgent_eq_ok_iff.mp hctx
  apply Context.check_of_observe ?_ hview
  rw [hcontext]
  exact henv

theorem Fills.exists_decisions {members : List BatchMember} (h : c.Fills members)
    (hpos : 0 < c.trees) {b : Bank} (hb : c.trees ≤ b.size) :
    ∃ ds, b.tickBatch members = .ok ds ∧ ds.length = c.batchSize := by
  have hdecides : ∀ m ∈ members, ∃ d, b.Decides m d := by
    intro m hm
    obtain ⟨slot, hslot⟩ := List.mem_iff_getElem?.mp hm
    have hserves := h.serves slot m hslot
    apply Bank.exists_decides ?_ hserves.check_eq_ok
    rw [hserves.1]
    exact Nat.lt_of_lt_of_le (Nat.mod_lt slot hpos) hb
  obtain ⟨ds, hds⟩ := exists_forall₂ hdecides
  exact ⟨ds, Bank.tickBatch_eq_ok_iff.mpr hds, hds.length_eq ▸ h.length_eq⟩

theorem batch_of_validate (h : c.validate = .ok ()) :
    (∀ terrain agent, agent.Valid →
      ∃ ctx, Context.ofAgent (c.environment terrain) agent = .ok ctx ∧
        ∀ tick seed data, (∃ v, (ctx.atTick tick seed).observe data c.layout = .ok v) ↔
          data.size = c.layout.length) ∧
      Set.BijOn (fun slot => (slot / c.trees, c.treeIndex slot)) (Set.Iio c.batchSize)
        (Set.Iio c.envs ×ˢ Set.Iio c.trees) ∧
      (∀ tree < c.trees, ((List.range c.batchSize).map c.treeIndex).count tree = c.envs) ∧
      (∀ env < c.envs,
        (List.range' (env * c.trees) c.trees).map c.treeIndex = List.range c.trees) ∧
      ∀ (b : Bank) (members : List BatchMember), c.trees ≤ b.size → c.Fills members →
        ∃ ds, b.tickBatch members = .ok ds ∧ ds.length = c.batchSize := by
  have htrees : 0 < c.trees := validate_eq_ok_iff.mp h .trees
  refine ⟨?contexts, bijOn_place htrees, fun _ => count_treeIndex,
    fun env _ => c.map_treeIndex_block env, ?decisions⟩
  case contexts =>
    intro terrain agent hagent
    refine ⟨_, Context.ofAgent_eq_ok_iff.mpr ⟨valid_environment h terrain, hagent, rfl⟩, ?_⟩
    intro tick seed data
    exact exists_observe_iff_size rfl data
  case decisions =>
    intro b members hb hmembers
    exact hmembers.exists_decisions htrees hb

theorem batch_of_validate_duel :
    let c : RunConfig :=
      { envs := 2, trees := 2, steps := 1, allies := 1, enemies := 1, bank := "bank" }
    let idle := (Bank.empty.push "idle" ⟨.leaf 0 .stand, 1⟩).1
    let b := (idle.push "engage" ⟨.leaf 0 (.attack (.qualified .closest) none), 1⟩).1
    let members := (List.range c.batchSize).map fun slot =>
      { index := c.treeIndex slot, view := .duel, context := .duel : BatchMember }
    c.validate = .ok () ∧ c.trees ≤ b.size ∧ c.Fills members ∧
      ∃ ds, b.tickBatch members = .ok ds ∧ ds.length = 4 := by
  intro c idle b members
  have hvalidate : c.validate = .ok () := by decide
  have hcontext :
      Context.ofAgent (c.environment Context.duel.env.terrain) Context.duel.agent = .ok .duel := by
    apply Context.ofAgent_eq_ok_iff.mpr
    exact ⟨valid_environment hvalidate _, ⟨by decide, by decide, by decide⟩, rfl⟩
  have hview : Context.duel.observe View.duel.data c.layout = .ok .duel := by
    rfl
  have hfills : c.Fills members := by
    refine ⟨rfl, ?_⟩
    intro slot m hm
    rw [List.getElem?_map, Option.map_eq_some_iff] at hm
    obtain ⟨place, hplace, rfl⟩ := hm
    obtain ⟨-, rfl⟩ := List.getElem?_eq_some_iff.mp hplace
    rw [List.getElem_range]
    exact ⟨rfl, _, _, _, 0, 0, _, hcontext, rfl, hview⟩
  refine ⟨hvalidate, Nat.le_refl 2, hfills, ?_⟩
  exact (batch_of_validate hvalidate).2.2.2.2 b members (Nat.le_refl 2) hfills

end RunConfig

end BattleTree
