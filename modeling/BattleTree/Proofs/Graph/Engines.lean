import BattleTree.Proofs.Graph.Decisions

/-!
This module contains the agreement of the engines: on a view that its context accepts, all of them
return the decision of the root, whatever receives the events of a traced tick. No engine ticks a
view that its context refuses.
-/

namespace BattleTree

theorem requireObserved_eq_ok_iff {v : View} {c : Context} :
    requireObserved v c = .ok () ↔ c.check v = .ok () := by
  unfold requireObserved
  cases c.check v <;> simp [Except.mapError]

theorem requireObserved_eq_error {v : View} {c : Context} {violation : Violation}
    (h : c.check v = .error violation) :
    requireObserved v c = .error (.foreignView violation) := by
  unfold requireObserved
  rw [h]
  rfl

theorem requireObserved_of_scene {v : View} {c : Context} {s : Scene}
    (h : Scene.ofView v c = .ok s) : requireObserved v c = .ok () :=
  requireObserved_eq_ok_iff.mpr (Scene.check_of_ofView h)

theorem Node.tick_of_scene {v : View} {c : Context} {s : Scene} (h : Scene.ofView v c = .ok s)
    (n : Node) : n.tick v c = .ok (n.decide s) := by
  unfold tick
  rw [requireObserved_of_scene h, ok_bind, run_eq (Scene.depicts_of_ofView h)]
  rfl

namespace Graph

variable {g : Graph} {v : View} {c : Context} {s : Scene}

theorem tick_of_scene (h : Scene.ofView v c = .ok s) : g.tick v c = .ok (g.root.decide s) := by
  exact Node.tick_of_scene h g.root

theorem tick_of_scene_eq_error {e : Fault} (h : Scene.ofView v c = .error e) :
    g.tick v c = .error e := by
  cases hcheck : c.check v with
  | ok =>
    obtain ⟨s, hs⟩ := Scene.exists_ofView hcheck
    rw [hs] at h
    cases h
  | error violation =>
    rw [Scene.ofView_eq_error hcheck] at h
    obtain rfl := Except.error.inj h
    unfold tick Node.tick
    rw [requireObserved_eq_error hcheck]
    rfl

theorem exists_scene_of_tick {d : Decision} (h : g.tick v c = .ok d) :
    ∃ s, Scene.ofView v c = .ok s ∧ g.root.decide s = d := by
  obtain ⟨hcheck, -⟩ := unit_bind_eq_ok_iff.mp h
  obtain ⟨s, hs⟩ := Scene.exists_ofView (requireObserved_eq_ok_iff.mp hcheck)
  exact ⟨s, hs, Except.ok.inj ((tick_of_scene hs).symm.trans h)⟩

theorem tickExhaustive_of_scene (h : Scene.ofView v c = .ok s) :
    g.tickExhaustive v c = .ok (g.root.decide s) := by
  unfold tickExhaustive
  rw [requireObserved_of_scene h, ok_bind]
  exact Node.decideExhaustively_eq (Scene.depicts_of_ofView h) g.root

theorem tickTraced_of_scene {σ : Type} [TraceSink σ] (h : Scene.ofView v c = .ok s) (sink : σ) :
    g.tickTraced v c sink = .ok (g.root.decide s,
      TraceSink.emit (Node.emitAll s (g.root.evaluated s) sink)
        ⟨c.tick, .fired, (g.root.decide s).node, (g.root.decide s).action.code⟩) := by
  unfold tickTraced
  rw [requireObserved_of_scene h, ok_bind, Node.run_eq (Scene.depicts_of_ofView h)]
  rfl

theorem ticks_eq_error {violation : Violation} (h : c.check v = .error violation) :
    (∀ n : Node, n.tick v c = .error (.foreignView violation)) ∧
      ∀ g : Graph, g.tick v c = .error (.foreignView violation) ∧
        g.tickExhaustive v c = .error (.foreignView violation) ∧
        ∀ (σ : Type) [TraceSink σ] (sink : σ),
          g.tickTraced v c sink = .error (.foreignView violation) := by
  have hobserved := requireObserved_eq_error h
  have hnode (n : Node) : n.tick v c = .error (.foreignView violation) := by
    unfold Node.tick
    rw [hobserved]
    rfl
  refine ⟨hnode, ?_⟩
  intro g
  refine ⟨hnode g.root, ?_, ?_⟩
  · unfold tickExhaustive
    rw [hobserved]
    rfl
  · intro σ _ sink
    unfold tickTraced
    rw [hobserved]
    rfl

theorem exists_decision_of_check (g : Graph) (v : View) (c : Context) (h : c.check v = .ok ()) :
    ∃ d : Decision, g.tick v c = .ok d ∧ g.tickExhaustive v c = .ok d ∧
      ∀ (σ : Type) [TraceSink σ] (sink : σ), ∃ sink', g.tickTraced v c sink = .ok (d, sink') := by
  obtain ⟨s, hs⟩ := Scene.exists_ofView h
  refine ⟨g.root.decide s, tick_of_scene hs, tickExhaustive_of_scene hs, ?_⟩
  intro σ _ sink
  exact ⟨_, tickTraced_of_scene hs sink⟩

theorem exists_decision_of_check_duel :
    Context.duel.check .duel = .ok () ∧
      let engage : List Node :=
        [.leaf 2 (.inSight .foe none), .leaf 3 (.attack (.qualified .closest) none)]
      let g : Graph := ⟨.fallback 0 [.sequence 1 engage, .leaf 4 .stand], 5⟩
      ∃ d : Decision, g.tick .duel .duel = .ok d ∧ g.tickExhaustive .duel .duel = .ok d ∧
        ∀ (σ : Type) [TraceSink σ] (sink : σ),
          ∃ sink', g.tickTraced .duel .duel sink = .ok (d, sink') :=
  ⟨Context.check_duel, exists_decision_of_check _ _ _ Context.check_duel⟩

end Graph

end BattleTree
