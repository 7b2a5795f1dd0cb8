import BattleTree.Proofs.Scene.Evaluate

/-!
This module contains what an attack aims at: a foe that is seen and in reach, whose row is one of
the foe rows of the view. An attack that does not succeed is a miss.
-/

namespace BattleTree

theorem Action.attack?_eq_some_iff {slot : Nat} {action : Action} :
    attack? slot = some action ↔ action.code.toNat = firstAttack + slot := by
  unfold attack?
  constructor
  · intro h
    split at h
    · next hlt =>
      obtain rfl := Option.some.inj h
      exact (UInt32.toNat_ofNat_of_lt hlt).trans (Nat.add_comm ..)
    · cases h
  · intro h
    have hlt := action.code.toNat_lt
    rw [if_pos (by unfold UInt32.size; omega), Nat.add_comm, ← h, UInt32.ofNat_toNat]

namespace Scene

theorem strike_eq_success_iff {s : Scene} {target : Option Row} {action : Action} :
    s.strike target = ⟨.success, action⟩ ↔
      ∃ row ∈ target, action.code.toNat = Action.firstAttack + (row.index - s.firstFoe) := by
  unfold strike
  simp only [← Action.attack?_eq_some_iff, ← Option.bind_eq_some_iff, Option.mem_def]
  cases target.bind fun row => Action.attack? (row.index - s.firstFoe) with
  | none => simp [Outcome.miss]
  | some action' => simp

theorem strike_cases (s : Scene) (target : Option Row) :
    s.strike target = .miss ∨ ∃ action, s.strike target = ⟨.success, action⟩ := by
  unfold strike
  split
  · next action _ => exact .inr ⟨action, rfl⟩
  · exact .inl rfl

theorem attack_eq_success_iff {s : Scene} {target : AttackTarget} {unit : Option UnitType}
    {action : Action} :
    s.attack target unit = ⟨.success, action⟩ ↔ ¬s.own.cooldown > 0 ∧
      ∃ row ∈ s.aim? unit target,
        action.code.toNat = Action.firstAttack + (row.index - s.firstFoe) := by
  unfold attack
  split
  · next hcooldown => simp [hcooldown, Outcome.miss]
  · next hcooldown => rw [strike_eq_success_iff, and_iff_right hcooldown]

theorem attack_cases (s : Scene) (target : AttackTarget) (unit : Option UnitType) :
    s.attack target unit = .miss ∨ ∃ action, s.attack target unit = ⟨.success, action⟩ := by
  unfold attack
  split
  · exact .inl rfl
  · apply strike_cases

theorem exists_slot_of_mem_foes {v : View} {c : Context} {s : Scene} {row : Row}
    (hcheck : c.check v = .ok ()) (hs : s.Depicts v c) (h : row ∈ s.foes) :
    ∃ slot, row.index = s.firstFoe + slot ∧ slot < c.foeTeamSize ∧
      v.row (c.friendRows.size + slot) = .ok row ∧ row.isAlive = true := by
  obtain ⟨i, hstart, hstop, hrow, halive⟩ := exists_row_of_mem hs.foes_eq h
  obtain ⟨hfriends, hfoes⟩ := Context.check_eq_ok_iff.mp hcheck
  have hfirst := hs.firstFoe_eq
  have hindex := View.index_of_row hrow
  rw [hfoes] at hstart hstop hfirst
  simp only [Context.foeRows] at hstart hstop hfirst
  refine ⟨row.index - s.firstFoe, ?_, ?_, ?_, halive⟩
  · omega
  · omega
  · have hplace : c.friendRows.size + (row.index - s.firstFoe) = i := by
      simp only [Context.friendRows, RowRange.size]
      omega
    rw [hplace]
    exact hrow

end Scene

end BattleTree
