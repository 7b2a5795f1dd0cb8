import BattleTree.Proofs.Graph.Tracing
import BattleTree.Proofs.Scene.Targets

/-!
This module contains that only legal actions are handed to the simulation: a decision moves, stands
or attacks a living foe in reach with a weapon that is ready.
-/

namespace BattleTree

inductive Action.Legal (v : View) (c : Context) (a : Action) : Prop where
  | free : a.code < 5 → Legal v c a
  | attack {slot : Nat} {row : Row} {own : Reading} :
      a.code.toNat = 5 + slot → slot < c.foeTeamSize →
      v.row (c.friendRows.size + slot) = .ok row → row.isAlive = true → row.distance < c.reach →
      v.own = .ok own → ¬own.cooldown > 0 → Legal v c a

theorem Action.legal_stand (v : View) (c : Context) : Action.stand.Legal v c := by
  apply Legal.free
  decide

theorem Action.legal_heading (v : View) (c : Context) (heading : Heading) :
    heading.action.Legal v c := by
  apply Legal.free
  cases heading <;> decide

namespace Scene

theorem code_explore_lt (s : Scene) : (s.evaluate .explore).action.code < 5 := by
  rw [UInt32.lt_iff_toNat_lt]
  apply Stream.toNat_scale_lt
  decide

theorem legal_evaluate {v : View} {c : Context} {s : Scene} (hcheck : c.check v = .ok ())
    (hs : s.Depicts v c) (atomic : Atomic) : (s.evaluate atomic).action.Legal v c := by
  cases atomic with
  | attack target unit =>
    simp only [evaluate]
    rcases s.attack_cases target unit with hmiss | ⟨action, hattack⟩
    · rw [hmiss]
      apply Action.legal_stand
    · obtain ⟨hcooldown, row, hrow, hcode⟩ := attack_eq_success_iff.mp hattack
      obtain ⟨hfoe, -, hdistance⟩ := mem_inReach.mp (mem_inReach_of_aim? hrow)
      obtain ⟨slot, hindex, hslot, hview, halive⟩ := exists_slot_of_mem_foes hcheck hs hfoe
      rw [hindex, Nat.add_sub_cancel_left] at hcode
      rw [hs.context_eq] at hdistance
      rw [hattack]
      exact .attack hcode hslot hview halive hdistance hs.own_eq hcooldown
  | moveRelative course qualifier team unit =>
    simp only [evaluate, moveRelative]
    split
    · apply Action.legal_heading
    · apply Action.legal_stand
  | moveCenter | moveHeading => apply Action.legal_heading
  | explore => exact .free s.code_explore_lt
  | _ => apply Action.legal_stand

theorem action_evaluate_of_condition (s : Scene) {atomic : Atomic}
    (h : atomic.isAction = false) : (s.evaluate atomic).action = .stand := by
  cases atomic with
  | attack | moveRelative | moveCenter | moveHeading | stand | explore => cases h
  | _ => rfl

end Scene

theorem Node.action_decide {P : Action → Prop} {s : Scene} {n : Node} (hstand : P .stand)
    (hleaf : ∀ id atomic, leaf id atomic ∈ n.preorder → P (s.evaluate atomic).action) :
    P (n.decide s).action := by
  induction n using childInduction with
  | step n ih =>
    have hchild {m : Node} (hm : m ∈ n.children) : P (m.decide s).action := by
      apply ih m hm
      intro id atomic hmem
      apply hleaf id
      exact mem_preorder_of_mem_children hm hmem
    cases hpassing : n.passing? with
    | none =>
      cases n with
      | leaf id atomic => exact hleaf id atomic (self_mem_preorder _)
      | decorator id transform n => exact @hchild n List.mem_cons_self
      | sequence | fallback => cases hpassing
    | some status =>
      rcases decide_composite s hpassing with
        hidle | ⟨before, m, after, hsplit, -, -, hdecide⟩
      · rw [hidle]
        exact hstand
      · rw [hdecide]
        exact hchild (by simp [hsplit])

namespace Graph

theorem exists_legal_decision (g : Graph) (v : View) (c : Context) (hcheck : c.check v = .ok ()) :
    ∃ d, g.tick v c = .ok d ∧ d.action.Legal v c ∧
      ((∀ id atomic, .leaf id atomic ∈ g.root.preorder → atomic.isAction = false) →
        d.action = .stand) := by
  obtain ⟨s, hs⟩ := Scene.exists_ofView hcheck
  refine ⟨g.root.decide s, tick_of_scene hs, ?_, ?_⟩
  · apply Node.action_decide
    · apply Action.legal_stand
    · intro _ atomic _
      exact Scene.legal_evaluate hcheck (Scene.depicts_of_ofView hs) atomic
  · intro hconditions
    apply Node.action_decide (P := fun action => action = .stand) rfl
    intro id atomic hmem
    exact s.action_evaluate_of_condition (hconditions id atomic hmem)

theorem exists_legal_decision_duel :
    let g : Graph := ⟨.decorator 0 .forceFailure (.leaf 1 (.attack (.slot 0) none)), 2⟩
    Context.duel.check .duel = .ok () ∧ ∃ d, g.tick .duel .duel = .ok d ∧ d.action = ⟨5⟩ ∧
      d.action.Legal .duel .duel := by
  -- A failed attack keeps its code.
  intro g
  obtain ⟨d, hd, hlegal, -⟩ := exists_legal_decision g .duel .duel Context.check_duel
  have haction : (g.tick .duel .duel).map (fun d => d.action) = .ok ⟨5⟩ := by decide +kernel
  rw [hd] at haction
  exact ⟨Context.check_duel, d, hd, Except.ok.inj haction, hlegal⟩

end Graph

end BattleTree
