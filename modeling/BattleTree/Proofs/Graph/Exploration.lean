import BattleTree.Proofs.Graph.Tracing
import BattleTree.Proofs.Scene.Targets

/-!
This module contains what randomness can do: only explore leaves look at the stream of an agent, and
only they go on, so that a tick that evaluates none of them is the same for all streams.
-/

namespace BattleTree

def Context.rekey (c : Context) (agent tick seed : UInt64) : Context :=
  { c with agent := { c.agent with id := agent }, tick, seed }

def TraceEvent.atTick (tick : UInt64) (e : TraceEvent) : TraceEvent :=
  { e with tick }

namespace Scene

def rekey (s : Scene) (agent tick seed : UInt64) : Scene :=
  { s with context := s.context.rekey agent tick seed }

theorem ofView_rekey {v : View} {c : Context} {s : Scene} (h : ofView v c = .ok s)
    (agent tick seed : UInt64) :
    ofView v (c.rekey agent tick seed) = .ok (s.rekey agent tick seed) := by
  rw [ofView_eq_ok_iff] at h ⊢
  obtain ⟨hcheck, hs⟩ := h
  refine ⟨hcheck, hs.own_eq, hs.friends_eq, hs.foes_eq, hs.firstFoe_eq, ?_⟩
  rw [← hs.context_eq]
  rfl

theorem evaluate_rekey (s : Scene) (agent tick seed : UInt64) {atomic : Atomic}
    (h : atomic ≠ .explore) : (s.rekey agent tick seed).evaluate atomic = s.evaluate atomic := by
  cases atomic with
  | explore => exact absurd rfl h
  | _ => rfl

theorem attack_status_ne_running (s : Scene) (target : AttackTarget) (unit : Option UnitType) :
    (s.attack target unit).status ≠ .running := by
  rcases s.attack_cases target unit with h | ⟨action, h⟩
  · simp [h, Outcome.miss]
  · simp [h]

theorem moveRelative_status_ne_running (s : Scene) (course : Course) (qualifier : Qualifier)
    (team : Team) (unit : Option UnitType) :
    (s.moveRelative course qualifier team unit).status ≠ .running := by
  unfold moveRelative
  split <;> simp [Outcome.miss]

theorem evaluate_status_eq_running_iff (s : Scene) (atomic : Atomic) :
    (s.evaluate atomic).status = .running ↔ atomic = .explore := by
  cases atomic with
  | explore => simp [evaluate]
  | attack => simp [evaluate, attack_status_ne_running]
  | moveRelative => simp [evaluate, moveRelative_status_ne_running]
  | moveCenter | stand => simp [evaluate]
  | _ => simp [evaluate, Outcome.ofCondition, Status.ofBool_ne_running]

end Scene

theorem Transform.applyStatus_eq_running_iff {transform : Transform} {status : Status} :
    transform.applyStatus status = .running ↔ transform = .invert ∧ status = .running := by
  cases transform <;> cases status <;> simp [applyStatus]

namespace Node

def Explores (s : Scene) (n : Node) : Prop :=
  ∃ id, leaf id .explore ∈ n.evaluated s

def SameRun (s s' : Scene) (n : Node) : Prop :=
  n.decide s' = n.decide s ∧ n.evaluated s' = n.evaluated s

section

variable {s s' : Scene}

theorem sameRun_while {passing : Status} {ns : List Node}
    (hns : ∀ n ∈ ns, ¬n.Explores s → n.SameRun s s')
    (h : ∀ id, leaf id .explore ∉ evaluatedWhile s (some passing) ns) :
    evaluatedWhile s' (some passing) ns = evaluatedWhile s (some passing) ns ∧
      (decisions s' ns).find? (·.status ≠ passing) =
        (decisions s ns).find? (·.status ≠ passing) ∧
      ((decisions s ns).find? (·.status ≠ passing) = none → decisions s' ns = decisions s ns) := by
  induction ns with
  | nil => simp [decisions, evaluatedWhile]
  | cons n ns ih =>
    rw [List.forall_mem_cons] at hns
    simp only [evaluatedWhile, List.mem_append, not_or] at h
    obtain ⟨hdecide, hevaluated⟩ := hns.1 (by simpa [Explores] using fun id => (h id).1)
    simp only [evaluatedWhile, decisions_cons, hdecide, hevaluated]
    by_cases hpass : (n.decide s).status = passing
    · simp only [hpass, ↓reduceIte] at h ⊢
      obtain ⟨hwhile, hfind, hall⟩ := ih hns.2 (fun id => (h id).2)
      rw [List.find?_cons_of_neg (by simp [hpass]), List.find?_cons_of_neg (by simp [hpass])]
      refine ⟨by rw [hwhile], hfind, ?_⟩
      intro hnone
      rw [hall hnone]
    · -- The same child stops both runs, whatever the ones after it would do.
      have hstop : some passing ≠ some (n.decide s).status := by simpa using Ne.symm hpass
      rw [List.find?_cons_of_pos (by simp [hpass]), List.find?_cons_of_pos (by simp [hpass])]
      simp [hstop]

theorem sameRun_of_not_explores
    (hevaluate : ∀ atomic, atomic ≠ .explore → s'.evaluate atomic = s.evaluate atomic) {n : Node}
    (h : ¬n.Explores s) : n.SameRun s s' := by
  unfold SameRun
  simp only [Explores, not_exists] at h
  induction n using childInduction with
  | step n ih =>
    cases n with
    | leaf id atomic =>
      have hatomic : atomic ≠ .explore := by
        rintro rfl
        exact h id (self_mem_evaluated s _)
      rw [decide_leaf, decide_leaf, hevaluate atomic hatomic, evaluated, evaluated]
      exact ⟨rfl, rfl⟩
    | decorator id transform n =>
      simp only [evaluated, List.mem_append, not_or] at h
      obtain ⟨hdecide, hevaluated⟩ := ih n (List.mem_singleton.mpr rfl) (fun id => (h id).1)
      rw [decide_decorator, decide_decorator, evaluated, evaluated, hdecide, hevaluated]
      exact ⟨rfl, rfl⟩
    | sequence id ns =>
      simp only [evaluated, List.mem_append, not_or] at h
      have hns : ∀ n ∈ ns, ¬n.Explores s → n.SameRun s s' :=
        fun n hn hexplores => ih n hn (not_exists.mp hexplores)
      obtain ⟨hevaluated, hfind, hall⟩ := sameRun_while hns (fun id => (h id).1)
      rw [decide_sequence, decide_sequence, sequenceOf, sequenceOf, evaluated, evaluated,
        hevaluated, hfind]
      refine ⟨?_, rfl⟩
      cases hdecider : (decisions s ns).find? (·.status ≠ .success) with
      | none => rw [hall hdecider]
      | some d => rw [Option.getD_some, Option.getD_some]
    | fallback id ns =>
      simp only [evaluated, List.mem_append, not_or] at h
      have hns : ∀ n ∈ ns, ¬n.Explores s → n.SameRun s s' :=
        fun n hn hexplores => ih n hn (not_exists.mp hexplores)
      obtain ⟨hevaluated, hfind, -⟩ := sameRun_while hns (fun id => (h id).1)
      rw [decide_fallback, decide_fallback, fallbackOf, fallbackOf, evaluated, evaluated,
        hevaluated, hfind]
      exact ⟨rfl, rfl⟩

end

theorem not_explores_of_mem_evaluated {s : Scene} {m n : Node} (h : ¬n.Explores s)
    (hm : m ∈ n.evaluated s) : ¬m.Explores s := by
  rintro ⟨id, hid⟩
  exact h ⟨id, evaluated_subset hm hid⟩

theorem report?_rekey {s : Scene} {n : Node} {agent tick seed : UInt64}
    (h : n.decide (s.rekey agent tick seed) = n.decide s) :
    n.report? (s.rekey agent tick seed) = (n.report? s).map (·.atTick tick) := by
  cases n with
  | leaf | decorator =>
    simp only [report?, h]
    rfl
  | sequence | fallback => rfl

theorem events_rekey {s : Scene} {n : Node} (h : ¬n.Explores s) (agent tick seed : UInt64) :
    n.events (s.rekey agent tick seed) = (n.events s).map (·.atTick tick) := by
  have hrun {m : Node} (hm : ¬m.Explores s) : m.SameRun s (s.rekey agent tick seed) :=
    sameRun_of_not_explores (fun _ hatomic => s.evaluate_rekey agent tick seed hatomic) hm
  unfold events
  rw [(hrun h).2, List.map_filterMap]
  apply List.filterMap_congr
  intro m hm
  exact report?_rekey (hrun (not_explores_of_mem_evaluated h hm)).1

/-- The status of a node is that of an explore leaf: composites and inversions pass it on. -/
inductive RunsFrom (v : View) (c : Context) : Node → NodeId → Prop where
  | explore {id : NodeId} : RunsFrom v c (leaf id .explore) id
  | composite {n child : Node} {before after : List Node} {status : Status} {id : NodeId} :
      status ∈ n.passing? → n.children = before ++ child :: after →
      (∀ b ∈ before, b.TicksTo v c status) → n.tick v c = child.tick v c →
      RunsFrom v c child id → RunsFrom v c n id
  | invert {own id : NodeId} {child : Node} :
      RunsFrom v c child id → RunsFrom v c (decorator own .invert child) id

section

variable {v : View} {c : Context} {s : Scene} {n : Node} {id : NodeId}

theorem RunsFrom.mem_preorder (h : n.RunsFrom v c id) : leaf id .explore ∈ n.preorder := by
  induction h with
  | explore => exact self_mem_preorder _
  | @composite n child before after status id _ hsplit _ _ _ ih =>
    exact mem_preorder_of_mem_children (by simp [hsplit]) ih
  | invert _ ih => exact mem_preorder_of_mem_children List.mem_cons_self ih

theorem RunsFrom.status_eq (hs : Scene.ofView v c = .ok s) (h : n.RunsFrom v c id) :
    (n.decide s).status = .running := by
  induction h with
  | explore => rfl
  | composite _ _ _ htick _ ih =>
    rw [tick_of_scene hs, tick_of_scene hs] at htick
    rw [Except.ok.inj htick]
    exact ih
  | invert _ ih =>
    rw [decide_decorator]
    exact Transform.applyStatus_eq_running_iff.mpr ⟨rfl, ih⟩

theorem exists_runsFrom (hs : Scene.ofView v c = .ok s) (h : (n.decide s).status = .running) :
    ∃ id, n.RunsFrom v c id := by
  induction n using childInduction with
  | step n ih =>
    cases hpassing : n.passing? with
    | none =>
      cases n with
      | leaf id atomic =>
        obtain rfl := (s.evaluate_status_eq_running_iff atomic).mp h
        exact ⟨id, .explore⟩
      | decorator own transform n =>
        rw [decide_decorator] at h
        obtain ⟨rfl, hrunning⟩ := Transform.applyStatus_eq_running_iff.mp h
        obtain ⟨id, hid⟩ := ih n (List.mem_singleton.mpr rfl) hrunning
        exact ⟨id, .invert hid⟩
      | sequence | fallback => cases hpassing
    | some status =>
      rcases decide_composite s hpassing with
        hidle | ⟨before, child, after, hsplit, hbefore, -, hdecide⟩
      · rw [hidle] at h
        cases n <;> cases hpassing <;> cases h
      · rw [hdecide] at h
        obtain ⟨id, hid⟩ := ih child (by simp [hsplit]) h
        refine ⟨id, .composite hpassing hsplit ?_ ?_ hid⟩
        · intro b hb
          exact (ticksTo_iff hs).mpr (hbefore b hb)
        · rw [tick_of_scene hs, tick_of_scene hs, hdecide]

end

end Node

namespace Graph

theorem tick_rekey (g : Graph) (v : View) (c : Context) (hcheck : c.check v = .ok ()) :
    ∃ s d events, Scene.ofView v c = .ok s ∧ g.tick v c = .ok d ∧ g.Traces v c d events ∧
      (∀ id, .leaf id .explore ∈ g.root.evaluated s → ∃ e ∈ events, e.kind = .leaf ∧ e.node = id) ∧
      (¬g.root.Explores s → ∀ agent tick seed,
        g.tick v (c.rekey agent tick seed) = .ok d ∧
          g.Traces v (c.rekey agent tick seed) d (events.map (·.atTick tick))) ∧
      (d.status = .running ↔ ∃ id, g.root.RunsFrom v c id) ∧
      ((∀ id, .leaf id .explore ∉ g.root.preorder) →
        d.status = .success ∨ d.status = .failure) := by
  obtain ⟨s, hs⟩ := Scene.exists_ofView hcheck
  have hrunning : (g.root.decide s).status = .running ↔ ∃ id, g.root.RunsFrom v c id := by
    constructor
    · exact Node.exists_runsFrom hs
    · rintro ⟨id, hid⟩
      exact hid.status_eq hs
  refine ⟨s, g.root.decide s, _, hs, tick_of_scene hs, traces_of_scene g hs, ?_, ?_, hrunning, ?_⟩
  · intro id hid
    refine ⟨⟨s.context.tick, .leaf, id, ((Node.leaf id .explore).decide s).action.code⟩, ?_, rfl,
      rfl⟩
    apply List.mem_append_left
    exact List.mem_filterMap.mpr ⟨_, hid, rfl⟩
  · intro hexplores agent tick seed
    have hs' := Scene.ofView_rekey hs agent tick seed
    have hdecide : g.root.decide (s.rekey agent tick seed) = g.root.decide s :=
      (Node.sameRun_of_not_explores (fun _ => s.evaluate_rekey agent tick seed) hexplores).1
    have htick := tick_of_scene (g := g) hs'
    have htraces := traces_of_scene g hs'
    rw [hdecide] at htick htraces
    rw [Node.events_rekey hexplores] at htraces
    rw [List.map_append]
    exact ⟨htick, htraces⟩
  · intro hexplore
    cases hstatus : (g.root.decide s).status with
    | success => exact .inl rfl
    | failure => exact .inr rfl
    | running =>
      obtain ⟨id, hid⟩ := hrunning.mp hstatus
      exact absurd hid.mem_preorder (hexplore id)

def patrol : Graph :=
  ⟨.fallback 0 [.leaf 1 (.attack (.qualified .closest) none), .leaf 2 .explore], 3⟩

theorem tick_rekey_patrol :
    Context.duel.check .duel = .ok () ∧ ∃ s, Scene.ofView .duel .duel = .ok s ∧
      ¬patrol.root.Explores s ∧ ∃ d events, patrol.Traces .duel .duel d events ∧
        patrol.Traces .duel (Context.duel.rekey 7 8 9) d (events.map (·.atTick 8)) := by
  obtain ⟨s, d, events, hs, -, htraces, hexplored, hrekey, -⟩ :=
    tick_rekey patrol .duel .duel Context.check_duel
  have hlog : (patrol.tickTraced .duel .duel TraceLog.empty).map
      (fun r => r.2.toList.map TraceEvent.node) = .ok [1, 1] := by
    decide +kernel
  rw [htraces TraceLog TraceLog.empty] at hlog
  have hnodes : (events.foldl TraceSink.emit TraceLog.empty).toList.map TraceEvent.node = [1, 1] :=
    Except.ok.inj hlog
  rw [TraceLog.toList_foldl_emit, TraceLog.toList_empty, List.nil_append] at hnodes
  have hexplores : ¬patrol.root.Explores s := by
    rintro ⟨id, hid⟩
    have hpreorder := Node.mem_preorder_of_mem_evaluated hid
    simp only [patrol, Node.preorder, Node.preorderAll, List.append_nil, List.cons_append,
      List.nil_append, List.mem_cons, reduceCtorEq, Node.leaf.injEq, and_false, and_true,
      List.not_mem_nil, or_false, false_or] at hpreorder
    obtain rfl := hpreorder
    obtain ⟨e, he, -, hnode⟩ := hexplored 2 hid
    have hmem := List.mem_map_of_mem (f := TraceEvent.node) he
    rw [hnode, hnodes] at hmem
    exact absurd hmem (by decide)
  exact ⟨Context.check_duel, s, hs, hexplores, d, events, htraces, (hrekey hexplores 7 8 9).2⟩

end Graph

end BattleTree
