import BattleTree.Proofs.Observation.Decode

/-!
This module contains what is accepted: the environments and agents that make a context, the vectors
that a context observes, and that a context accepts the views that it observed itself.
-/

namespace BattleTree

def Positive (x : Float32) : Prop :=
  x.isFinite ∧ x > 0

instance (x : Float32) : Decidable (Positive x) :=
  inferInstanceAs (Decidable (_ ∧ _))

theorem requirePositive_eq_ok_iff {field : String} {x : Float32} :
    requirePositive field x = .ok () ↔ Positive x := by
  unfold requirePositive Positive
  split
  · next h => simp [h]
  · next h => simp [h]

theorem requireSome_eq_ok_iff {field : String} {count : Nat} :
    requireSome field count = .ok () ↔ 0 < count := by
  unfold requireSome
  split
  · next h => simp [h]
  · next h => simp [h]

namespace Environment

structure Valid (e : Environment) : Prop where
  width_eq : e.terrain.width = e.mapWidth
  height_eq : e.terrain.height = e.mapHeight
  allies_pos : 0 < e.allies
  enemies_pos : 0 < e.enemies
  timePerStep_pos : Positive e.timePerStep
  worldSteps_pos : 0 < e.worldSteps

theorem validate_eq_ok_iff_valid {e : Environment} : e.validate = .ok () ↔ e.Valid := by
  unfold validate
  split
  · next hshape =>
    simp only [unit_bind_eq_ok_iff, requireSome_eq_ok_iff, requirePositive_eq_ok_iff]
    constructor
    · rintro ⟨hallies, henemies, htime, hsteps⟩
      exact ⟨hshape.1, hshape.2, hallies, henemies, htime, hsteps⟩
    · intro h
      exact ⟨h.allies_pos, h.enemies_pos, h.timePerStep_pos, h.worldSteps_pos⟩
  · next hshape =>
    rw [unit_bind_eq_ok_iff]
    constructor
    · rintro ⟨h, -⟩
      cases h
    · intro h
      exact absurd ⟨h.width_eq, h.height_eq⟩ hshape

theorem checkLayout_eq_ok_iff {e : Environment} {l : Layout} :
    e.checkLayout l = .ok () ↔ l.otherRows = e.allies + e.enemies - 1 ∧ l.validate = .ok () := by
  unfold checkLayout
  dsimp only
  split
  · next h => simp [h]
  · next h => simp [h]

end Environment

theorem View.ofData_eq_ok_iff {data : Array Float32} {layout : Layout} {friends : Nat} {v : View} :
    ofData data layout friends = .ok v ↔
      v.data = data ∧ v.layout = layout ∧ v.friends = friends := by
  unfold ofData
  constructor
  · intro h
    split at h
    · cases h
    · split at h
      · cases h
        exact ⟨rfl, rfl, rfl⟩
      · cases hlength : layout.boundedLength <;> rw [hlength] at h <;> cases h
  · rintro ⟨rfl, rfl, rfl⟩
    split
    · next violation h =>
      rw [v.layout_ok] at h
      cases h
    · rw [dif_pos v.size_eq]

structure Agent.Valid (a : Agent) : Prop where
  velocity_pos : Positive a.velocity
  sightRange_pos : Positive a.sightRange
  attackRange_pos : Positive a.attackRange

namespace Context

theorem ofAgent_eq_ok_iff {env : Environment} {agent : Agent} {c : Context} :
    ofAgent env agent = .ok c ↔
      env.Valid ∧ agent.Valid ∧ c = { env, agent, tick := 0, seed := 0 } := by
  unfold ofAgent
  simp only [unit_bind_eq_ok_iff, Environment.validate_eq_ok_iff_valid, requirePositive_eq_ok_iff,
    pure, Except.pure, Except.ok.injEq]
  constructor
  · rintro ⟨henv, hvelocity, hsight, hattack, hc⟩
    exact ⟨henv, ⟨hvelocity, hsight, hattack⟩, hc.symm⟩
  · rintro ⟨henv, hagent, hc⟩
    exact ⟨henv, hagent.velocity_pos, hagent.sightRange_pos, hagent.attackRange_pos, hc.symm⟩

theorem observe_eq_ok_iff {c : Context} {data : Array Float32} {layout : Layout} {v : View} :
    c.observe data layout = .ok v ↔ layout.otherRows = c.env.allies + c.env.enemies - 1 ∧
      v.data = data ∧ v.layout = layout ∧ v.friends = c.friendRows.stop := by
  unfold observe
  rw [unit_bind_eq_ok_iff, Environment.checkLayout_eq_ok_iff, View.ofData_eq_ok_iff]
  constructor
  · rintro ⟨⟨hrows, -⟩, hview⟩
    exact ⟨hrows, hview⟩
  · rintro ⟨hrows, hdata, rfl, hfriends⟩
    exact ⟨⟨hrows, v.layout_ok⟩, hdata, rfl, hfriends⟩

theorem exists_observe_iff {c : Context} {data : Array Float32} {layout : Layout} :
    (∃ v, c.observe data layout = .ok v) ↔
      layout.otherRows = c.env.allies + c.env.enemies - 1 ∧ layout.Usable ∧
        data.size = layout.length := by
  constructor
  · rintro ⟨v, hv⟩
    obtain ⟨hrows, rfl, rfl, -⟩ := observe_eq_ok_iff.mp hv
    exact ⟨hrows, v.usable, v.size_eq⟩
  · rintro ⟨hrows, husable, hsize⟩
    have hlayout := Layout.validate_eq_ok_iff_usable.mpr husable
    exact ⟨⟨data, layout, c.friendRows.stop, hlayout, hsize⟩,
      observe_eq_ok_iff.mpr ⟨hrows, rfl, rfl, rfl⟩⟩

theorem ownTeamSize_pos {c : Context} (h : c.env.Valid) : 0 < c.ownTeamSize := by
  unfold ownTeamSize Environment.teamSize
  cases c.agent.side with
  | ally => exact h.allies_pos
  | enemy => exact h.enemies_pos

theorem ownTeamSize_add_foeTeamSize (c : Context) :
    c.ownTeamSize + c.foeTeamSize = c.env.allies + c.env.enemies := by
  unfold ownTeamSize foeTeamSize Environment.teamSize
  cases c.agent.side with
  | ally => rfl
  | enemy => exact Nat.add_comm ..

theorem check_of_observe {c : Context} {data : Array Float32} {layout : Layout} {v : View}
    (henv : c.env.Valid) (h : c.observe data layout = .ok v) : c.check v = .ok () := by
  obtain ⟨hrows, -, rfl, hfriends⟩ := observe_eq_ok_iff.mp h
  apply check_eq_ok_iff.mpr
  unfold View.friendRows View.foeRows
  rw [hfriends, hrows]
  constructor
  · rfl
  · have hown := ownTeamSize_pos henv
    have hteams := c.ownTeamSize_add_foeTeamSize
    unfold foeRows
    rw [RowRange.mk.injEq]
    exact ⟨rfl, by omega⟩

end Context

end BattleTree
