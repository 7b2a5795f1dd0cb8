import BattleTree.Proofs.Scene.Choice
import BattleTree.Proofs.Scene.Sight

/-!
This module contains whom attacks aim at and where relative moves head for: the first of the best
rows under the rule. An attack is safe for every vector, because what is alive and in reach has
numbers for its health and its distance.
-/

namespace BattleTree

namespace Scene

theorem ranks_of_reaches (q : Qualifier) {v : View} {c : Context} {unit : Option UnitType}
    {slot : Nat} {row : Row} (h : v.Reaches c unit slot row) : q.Ranks row := by
  cases q with
  | closest | furthest => exact (Binary32.not_isNaN_of_lt h.near).1
  | strongest | weakest => exact (Binary32.not_isNaN_of_lt h.sees.alive).2

theorem ranks_of_sees (q : Qualifier) {v : View} {team : Team} {unit : Option UnitType}
    {place : Nat} {row : Row} (h : v.Sees team unit place row) (hrow : row.distance.isNaN = false) :
    q.Ranks row := by
  cases q with
  | closest | furthest => exact hrow
  | strongest | weakest => exact (Binary32.not_isNaN_of_lt h.alive).2

theorem moveRelative_eq_success_iff {s : Scene} {course : Course} {q : Qualifier} {team : Team}
    {unit : Option UnitType} {action : Action} :
    s.moveRelative course q team unit = ⟨.success, action⟩ ↔
      ∃ row ∈ q.pick? (s.seen team unit),
        action = (course.steer (Heading.ofOffset row.position.x row.position.y)).action := by
  unfold moveRelative
  cases q.pick? (s.seen team unit) with
  | none => simp [Outcome.miss]
  | some row => simp [eq_comm]

section

variable {s : Scene} {v : View} {c : Context} (hs : s.Depicts v c)

include hs

theorem Depicts.chooses_of_aim? {q : Qualifier} {unit : Option UnitType} {row : Row}
    (h : row ∈ s.aim? unit (.qualified q)) :
    ∃ slot, q.Chooses (v.Reaches c unit) slot row := by
  have hranks : ∀ row ∈ s.inReach .foe unit, q.Ranks row := by
    intro row hrow
    obtain ⟨slot, hreaches⟩ := hs.mem_inReach_iff.mp hrow
    exact ranks_of_reaches q hreaches
  have hleads := Qualifier.leads_of_pick? hranks h
  apply hleads.chooses
  · intro row
    exact hs.mem_inReach_iff
  · intro slot row hreaches
    exact hreaches.sees.index_eq
  · apply hs.pairwise_inReach

theorem Depicts.reaches_of_aim?_slot {slot : UInt64} {unit : Option UnitType} {row : Row}
    (h : row ∈ s.aim? unit (.slot slot)) : v.Reaches c unit slot.toNat row := by
  obtain ⟨slot', hreaches⟩ := hs.mem_inReach_iff.mp (mem_inReach_of_aim? h)
  have hslot := List.find?_some h
  rw [Bool.and_eq_true, decide_eq_true_iff, decide_eq_true_iff] at hslot
  rw [← hslot.2, (hs.index_sub_firstFoe hreaches).2]
  exact hreaches

theorem Depicts.mem_aim?_slot_iff {slot : UInt64} {unit : Option UnitType} {row : Row} :
    row ∈ s.aim? unit (.slot slot) ↔ v.Reaches c unit slot.toNat row := by
  refine ⟨hs.reaches_of_aim?_slot, ?_⟩
  intro h
  cases haim : s.aim? unit (.slot slot) with
  | none =>
    have hmem := hs.mem_inReach_iff.mpr ⟨slot.toNat, h⟩
    have hslot := List.find?_eq_none.mp haim row hmem
    rw [Bool.and_eq_true, decide_eq_true_iff, decide_eq_true_iff] at hslot
    exact absurd (hs.index_sub_firstFoe h) hslot
  | some row' =>
    have h' := hs.reaches_of_aim?_slot haim
    rw [Except.ok.inj (h.sees.row_eq.symm.trans h'.sees.row_eq)]
    rfl

theorem Depicts.chooses_of_pick? {q : Qualifier} {team : Team} {unit : Option UnitType} {row : Row}
    (hnumbers : ∀ place row, v.Sees team unit place row → row.distance.isNaN = false)
    (h : q.pick? (s.seen team unit) = some row) :
    ∃ place, q.Chooses (v.Sees team unit) place row := by
  have hranks : ∀ row ∈ s.seen team unit, q.Ranks row := by
    intro row hrow
    obtain ⟨place, hsees⟩ := hs.mem_seen_iff.mp hrow
    exact ranks_of_sees q hsees (hnumbers place row hsees)
  have hleads := Qualifier.leads_of_pick? hranks h
  apply hleads.chooses
  · intro row
    exact hs.mem_seen_iff
  · intro place row hsees
    exact hsees.index_eq
  · apply hs.pairwise_seen

theorem Depicts.exists_target_of_attack {q : Qualifier} {unit : Option UnitType} {action : Action}
    (h : s.attack (.qualified q) unit = ⟨.success, action⟩) :
    ∃ slot row, q.Chooses (v.Reaches c unit) slot row ∧
      action.code.toNat = Action.firstAttack + slot := by
  obtain ⟨-, row, hrow, hcode⟩ := attack_eq_success_iff.mp h
  obtain ⟨slot, hchooses⟩ := hs.chooses_of_aim? hrow
  rw [(hs.index_sub_firstFoe hchooses.stands).2] at hcode
  exact ⟨slot, row, hchooses, hcode⟩

theorem Depicts.attack_slot_eq_success_iff {slot : UInt64} {unit : Option UnitType}
    {action : Action} :
    s.attack (.slot slot) unit = ⟨.success, action⟩ ↔
      action.code.toNat = Action.firstAttack + slot.toNat ∧ ¬s.own.cooldown > 0 ∧
        ∃ row, v.Reaches c unit slot.toNat row := by
  rw [attack_eq_success_iff]
  constructor
  · rintro ⟨hcooldown, row, hrow, hcode⟩
    have hreaches := hs.reaches_of_aim?_slot hrow
    rw [(hs.index_sub_firstFoe hreaches).2] at hcode
    exact ⟨hcode, hcooldown, row, hreaches⟩
  · rintro ⟨hcode, hcooldown, row, hreaches⟩
    refine ⟨hcooldown, row, hs.mem_aim?_slot_iff.mpr hreaches, ?_⟩
    rw [(hs.index_sub_firstFoe hreaches).2]
    exact hcode

theorem Depicts.exists_moveRelative_iff {course : Course} {q : Qualifier} {team : Team}
    {unit : Option UnitType} :
    (∃ action, s.moveRelative course q team unit = ⟨.success, action⟩) ↔
      ∃ place row, v.Sees team unit place row := by
  simp only [moveRelative_eq_success_iff]
  constructor
  · rintro ⟨_, row, hrow, -⟩
    obtain ⟨place, hsees⟩ := hs.mem_seen_iff.mp (Qualifier.mem_of_pick? hrow)
    exact ⟨place, row, hsees⟩
  · rintro ⟨place, row, hsees⟩
    have hmem := hs.mem_seen_iff.mpr ⟨place, hsees⟩
    cases hpick : q.pick? (s.seen team unit) with
    | none =>
      rw [Qualifier.pick?_eq_none_iff.mp hpick] at hmem
      cases hmem
    | some row' => exact ⟨_, row', rfl, rfl⟩

end

end Scene

def View.volley : View where
  data := #[
    0.25, 0.5, 0, 0, 0, 0, 0, 1, 0, 0, 0, 0, 0,
    1, 0, 0.25, 0, 0, 0, 0, 0, 1, 0, 0, 0, 0,
    1, -0.25, 0, 0, 0, 0, 0, 1, 0, 0, 0, 0, 0,
    1, 0.5, 0.5, 0, 1, 0, 0, 0, 0, 0]
  layout := .standard 1 3
  friends := 0
  layout_ok := by rfl
  size_eq := by rfl

def Context.volley : Context :=
  { Context.duel with env := .ofTerrain 1 3 .meadow }

theorem View.isNaN_distance_volley {place : Nat} {row : Row}
    (h : View.volley.Sees .foe none place row) : row.distance.isNaN = false := by
  have hnumbers : ∀ i < 3, (View.volley.row i).map (fun row => row.distance.isNaN) = .ok false := by
    decide +kernel
  have hrow := hnumbers (0 + place) (by have := h.place_lt; change place < 3 at this; omega)
  change (View.volley.row (0 + place)).map _ = _ at hrow
  have heq := h.row_eq
  change View.volley.row (0 + place) = _ at heq
  rw [heq] at hrow
  exact Except.ok.inj hrow

end BattleTree
