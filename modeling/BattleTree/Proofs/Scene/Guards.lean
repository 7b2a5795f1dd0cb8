import BattleTree.Proofs.Scene.Aim

/-!
This module contains how attacks agree with the conditions that programs guard them with: an attack
that succeeds has a weapon that is not cooling down and a foe in reach, and an attack by a rule
needs no more than that. The condition on the own weapon asks for a bit more: that the cooldown is a
number. So a cooldown that is none lets an agent attack that is not armed.
-/

namespace BattleTree

namespace Scene

theorem isArmed_own_iff (s : Scene) :
    (s.evaluate (.isArmed .own)).status = .success ↔
      ¬s.own.cooldown > 0 ∧ s.own.cooldown.isNaN = false := by
  have hzero : (0 : Float32).isNaN = false := by decide +kernel
  change Status.ofBool (decide (s.own.cooldown ≤ 0)) = .success ↔ _
  rw [Status.ofBool_eq_success_iff, decide_eq_true_iff]
  constructor
  · intro h
    have hnumber := (Binary32.not_isNaN_of_le h).1
    exact ⟨(Binary32.not_lt_iff_le hzero hnumber).mpr h, hnumber⟩
  · rintro ⟨h, hnumber⟩
    exact (Binary32.not_lt_iff_le hzero hnumber).mp h

theorem inReach_iff (s : Scene) (team : Team) (unit : Option UnitType) :
    (s.evaluate (.inReach team unit)).status = .success ↔ ∃ row, row ∈ s.inReach team unit := by
  change Status.ofBool (!(s.inReach team unit).isEmpty) = .success ↔ _
  rw [Status.ofBool_eq_success_iff, Bool.not_eq_true', List.isEmpty_eq_false_iff_exists_mem]

theorem attack_status_eq_success_iff {s : Scene} {target : AttackTarget} {unit : Option UnitType} :
    (s.evaluate (.attack target unit)).status = .success ↔
      ∃ action, s.evaluate (.attack target unit) = ⟨.success, action⟩ := by
  constructor
  · intro h
    refine ⟨(s.evaluate (.attack target unit)).action, ?_⟩
    rw [← h]
  · rintro ⟨action, h⟩
    rw [h]

theorem attack_guarded (s : Scene) (target : AttackTarget) (unit : Option UnitType) :
    s.evaluate (.attack target unit) = ⟨.failure, .stand⟩ ∨
      (s.evaluate (.attack target unit)).status = .success ∧ ¬s.own.cooldown > 0 ∧
        (s.evaluate (.inReach .foe unit)).status = .success := by
  rcases s.attack_cases target unit with hmiss | ⟨action, hattack⟩
  · exact .inl hmiss
  · obtain ⟨hcooldown, row, hrow, -⟩ := attack_eq_success_iff.mp hattack
    have hreach := (s.inReach_iff .foe unit).mpr ⟨row, mem_inReach_of_aim? hrow⟩
    exact .inr ⟨attack_status_eq_success_iff.mpr ⟨action, hattack⟩, hcooldown, hreach⟩

theorem Depicts.attack_of_guards {s : Scene} {v : View} {c : Context} (hs : s.Depicts v c)
    (hcodes : v.foeRows.size + 5 ≤ UInt32.size) (q : Qualifier) {unit : Option UnitType}
    (hcooldown : ¬s.own.cooldown > 0)
    (hreach : (s.evaluate (.inReach .foe unit)).status = .success) :
    (s.evaluate (.attack (.qualified q) unit)).status = .success := by
  obtain ⟨row, hrow⟩ := (s.inReach_iff .foe unit).mp hreach
  cases haim : s.aim? unit (.qualified q) with
  | none =>
    rw [Qualifier.pick?_eq_none_iff.mp haim] at hrow
    cases hrow
  | some target =>
    obtain ⟨slot, hchooses⟩ := hs.chooses_of_aim? haim
    have hslot : slot < v.foeRows.size := hchooses.stands.sees.place_lt
    have hcode : (UInt32.ofNat (5 + slot)).toNat = 5 + slot :=
      UInt32.toNat_ofNat_of_lt (by omega)
    apply attack_status_eq_success_iff.mpr
    refine ⟨⟨UInt32.ofNat (5 + slot)⟩, attack_eq_success_iff.mpr ⟨hcooldown, target, haim, ?_⟩⟩
    rw [(hs.index_sub_firstFoe hchooses.stands).2]
    exact hcode

theorem exists_guards_of_attack {c : Context} {data : Array Float32} {layout : Layout} {v : View}
    (h : c.observe data layout = .ok v) (c' : Context) :
    ∃ own, v.own = .ok own ∧ (∀ atomic : Atomic, ∃ o, atomic.evaluate v c' = .ok o) ∧
      (∀ target unit, (Atomic.attack target unit).evaluate v c' = .ok ⟨.failure, .stand⟩ ∨
        (Atomic.attack target unit).Succeeds v c' ∧ ¬own.cooldown > 0 ∧
          (Atomic.inReach .foe unit).Succeeds v c') ∧
      (v.foeRows.size + 5 ≤ UInt32.size → ∀ q unit, ¬own.cooldown > 0 →
        (Atomic.inReach .foe unit).Succeeds v c' →
        (Atomic.attack (.qualified q) unit).Succeeds v c') ∧
      ((Atomic.isArmed .own).Succeeds v c' ↔ ¬own.cooldown > 0 ∧ own.cooldown.isNaN = false) := by
  obtain ⟨s, hdecode⟩ := exists_decode h c'
  have hs := decode_eq_ok_iff.mp hdecode
  refine ⟨s.own, hs.own_eq, fun atomic => ⟨_, hs.evaluate_eq atomic⟩, ?_⟩
  simp only [hs.succeeds_iff, hs.evaluate_eq_ok_iff]
  refine ⟨s.attack_guarded, ?_, s.isArmed_own_iff⟩
  intro hcodes q unit hcooldown hreach
  exact hs.attack_of_guards hcodes q hcooldown hreach

end Scene

def View.jammed : View :=
  { View.duel with
    data := #[
      1, 0.25, 0, 0, 0, 0, 0, 1, 0, 0, 0, 0, 0,
      1, 0.5, 0.5, 0 / 0, 1, 0, 0, 0, 0, 0]
    size_eq := by rfl }

namespace Scene

theorem exists_guards_of_attack_jammed :
    Context.duel.observe View.jammed.data View.jammed.layout = .ok .jammed ∧
      ∃ own, View.jammed.own = .ok own ∧ ¬own.cooldown > 0 ∧ own.cooldown.isNaN = true ∧
        (Atomic.inReach .foe none).Succeeds .jammed .duel ∧
        (Atomic.attack (.qualified .strongest) none).Succeeds .jammed .duel := by
  have hobserve : Context.duel.observe View.jammed.data View.jammed.layout = .ok .jammed :=
    Context.observe_eq_ok_iff.mpr ⟨rfl, rfl, rfl, rfl⟩
  obtain ⟨own, hown, -, -, hattack, -⟩ := exists_guards_of_attack hobserve .duel
  have hcooldown : View.jammed.own.map (fun own =>
      (decide (own.cooldown > 0), own.cooldown.isNaN)) = .ok (false, true) := by
    decide +kernel
  have hreach : (Atomic.inReach .foe none).Succeeds .jammed .duel :=
    ⟨.stand, by decide +kernel⟩
  rw [hown] at hcooldown
  obtain ⟨hready, hnan⟩ := Prod.mk.inj (Except.ok.inj hcooldown)
  have hready := of_decide_eq_false hready
  have hcodes : View.jammed.foeRows.size + 5 ≤ UInt32.size := by decide +kernel
  exact ⟨hobserve, own, hown, hready, hnan, hreach, hattack hcodes _ _ hready hreach⟩

theorem attack_of_not_isArmed :
    let evaluate (atomic : Atomic) := atomic.evaluate .jammed .duel
    evaluate (.attack (.qualified .closest) none) = .ok ⟨.success, ⟨5⟩⟩ ∧
      evaluate (.attack (.slot 0) none) = .ok ⟨.success, ⟨5⟩⟩ ∧
      evaluate (.inReach .foe none) = .ok ⟨.success, .stand⟩ ∧
      evaluate (.isArmed .own) = .ok ⟨.failure, .stand⟩ := by
  decide +kernel

end Scene

end BattleTree
