import BattleTree.Proofs.Graph.Engines
import BattleTree.Proofs.Observation.Acceptance
import BattleTree.Proofs.Scene.Targets
import BattleTree.Proofs.Terrain.Cells

/-!
This module contains that evaluation stays in range. A column outside of its segment, a segment
outside of the vector, a row that the view does not have, a cell outside of the raster and a slot
below zero are faults of whatever asks for them. On a view that was observed, under any context that
accepts it, no leaf meets one of them and so no engine does.
-/

namespace BattleTree

structure FeatureSegment.Complete (s : FeatureSegment) (layout : Layout) (cooldownColumn : Nat) :
    Prop where
  health : ∃ x, s.feature layout.health = .ok x
  position : ∃ p, s.position layout = .ok p
  cooldown : ∃ x, s.feature cooldownColumn = .ok x
  typeFlag : ∀ unit, ∃ x, s.typeFlag unit = .ok x

theorem FeatureSegment.Reads.complete {s : FeatureSegment} {layout : Layout} {cooldownColumn : Nat}
    {reading : Reading} (h : s.Reads layout cooldownColumn reading) :
    s.Complete layout cooldownColumn :=
  ⟨⟨_, h.health_eq⟩, ⟨_, h.position_eq⟩, ⟨_, h.cooldown_eq⟩,
    fun unit => ⟨_, typeFlag_of_types h.types_eq unit⟩⟩

def FeatureRow.Complete (r : FeatureRow) : Prop :=
  r.segment.Complete r.layout r.layout.otherCooldown

namespace View

theorem exists_complete_self (v : View) :
    ∃ s, v.selfSegment = .ok s ∧ s.Complete v.layout v.layout.selfCooldown := by
  obtain ⟨own, hown⟩ := v.exists_own
  obtain ⟨s, hs, hreads⟩ := own_eq_ok_iff.mp hown
  exact ⟨s, hs, hreads.complete⟩

theorem exists_complete_rows {v : View} {range : RowRange} (h : range.stop ≤ v.rowCount) :
    ∃ rs, v.featureRowsIn range = .ok rs ∧
      ∀ r ∈ rs, r.Complete ∧ (range.start = v.foeRows.start → ∃ slot, v.slotOf r = .ok slot) := by
  obtain ⟨rows, hrows⟩ := exists_rowsIn h
  obtain ⟨rs, hrs, htell⟩ := exists_featureRowsIn hrows
  refine ⟨rs, hrs, ?_⟩
  intro r hr
  obtain ⟨row, hrow, htells⟩ := exists_of_mem_forall₂ htell.flip hr
  refine ⟨htells.reads.complete, ?_⟩
  intro hstart
  unfold rowsIn at hrows
  rw [if_pos h] at hrows
  obtain ⟨i, hi, hrow⟩ := exists_of_mem_forall₂ (mapM_eq_ok_iff.mp hrows) hrow
  rw [RowRange.mem_toList] at hi
  unfold slotOf
  rw [htells.index_eq, index_of_row hrow, subtract_of_le (hstart ▸ hi.1)]
  exact ⟨_, rfl⟩

end View

namespace Graph

theorem exists_decision_of_observe {c c' : Context} {data : Array Float32} {layout : Layout}
    {v : View} (hview : c.observe data layout = .ok v) (hcheck : c'.check v = .ok ())
    (g : Graph) :
    (∀ (cell : Cell) (blocked : Bool),
      (∃ b, c'.env.terrain.isBlocked cell = .ok b) ∧
        ∃ t, c'.env.terrain.setBlocked cell blocked = .ok t) ∧
    (∃ s, v.selfSegment = .ok s ∧ s.Complete layout layout.selfCooldown) ∧
    (∀ team, ∃ rs, v.featureRowsIn (v.teamRows team) = .ok rs ∧
      ∀ r ∈ rs, r.Complete ∧ (team = .foe → ∃ slot, v.slotOf r = .ok slot)) ∧
    (∀ atomic : Atomic, ∃ o, atomic.evaluate v c' = .ok o) ∧
    ∃ d, g.tick v c' = .ok d ∧ g.tickExhaustive v c' = .ok d ∧
      ∀ (σ : Type) [TraceSink σ] (sink : σ), ∃ sink', g.tickTraced v c' sink = .ok (d, sink') := by
  obtain ⟨s, hs⟩ := Scene.exists_ofView hcheck
  have hdepicts := Scene.depicts_of_ofView hs
  obtain ⟨-, -, rfl, -⟩ := Context.observe_eq_ok_iff.mp hview
  refine ⟨?_, v.exists_complete_self, ?_, ?_, ?_⟩
  · intro cell blocked
    obtain ⟨flag, hflag⟩ := c'.env.terrain.exists_flags
    obtain ⟨t, ht, -⟩ := hflag.setBlocked cell blocked
    exact ⟨c'.env.terrain.exists_isBlocked cell, t, ht⟩
  · intro team
    have hstop : (v.teamRows team).stop ≤ v.rowCount := by
      cases team with
      | foe => exact Nat.le_refl _
      | friend => exact Context.friends_le_of_check hcheck
    obtain ⟨rs, hrs, hall⟩ := View.exists_complete_rows hstop
    refine ⟨rs, hrs, fun r hr => ⟨(hall r hr).1, ?_⟩⟩
    rintro rfl
    exact (hall r hr).2 rfl
  · intro atomic
    exact ⟨_, hdepicts.evaluate_eq atomic⟩
  · refine ⟨g.root.decide s, tick_of_scene hs, tickExhaustive_of_scene hs, ?_⟩
    intro σ _ sink
    exact ⟨_, tickTraced_of_scene hs sink⟩

theorem exists_decision_of_observe_wall :
    Context.duel.observe View.duel.data View.duel.layout = .ok .duel ∧
      ∃ wall, Terrain.meadow.setBlocked ⟨16, 17⟩ true = .ok wall ∧
        let c : Context := { Context.duel with env := .ofTerrain 1 1 wall, tick := 5, seed := 7 }
        let g : Graph :=
          ⟨.sequence 0 [.leaf 1 (.hasObstacle .north), .leaf 2 (.attack (.slot 7) none)], 3⟩
        c.check .duel = .ok () ∧
          ∃ d, g.tick .duel c = .ok d ∧ g.tickExhaustive .duel c = .ok d := by
  -- The agent stands in front of a wall, and the tree attacks a slot that there is no foe in.
  have hobserve : Context.duel.observe View.duel.data View.duel.layout = .ok .duel :=
    Context.observe_eq_ok_iff.mpr ⟨rfl, rfl, rfl, rfl⟩
  obtain ⟨flag, hflag⟩ := Terrain.meadow.exists_flags
  obtain ⟨wall, hwall, -⟩ := hflag.setBlocked ⟨16, 17⟩ true
  refine ⟨hobserve, wall, hwall, ?_⟩
  intro c g
  have hcheck : c.check .duel = .ok () := by rfl
  obtain ⟨-, -, -, -, d, htick, hexhaustive, -⟩ := exists_decision_of_observe hobserve hcheck g
  exact ⟨hcheck, d, htick, hexhaustive⟩

end Graph

end BattleTree
