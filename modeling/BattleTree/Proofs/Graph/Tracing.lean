import BattleTree.Proofs.Graph.Engines
import BattleTree.Proofs.Graph.Numbering

/-!
This module contains what a traced tick reports: the nodes that it evaluates, in the order in which
they are done, without the composites.
-/

namespace BattleTree

namespace Node

def passing? : Node → Option Status
  | sequence .. => some .success
  | fallback .. => some .failure
  | decorator .. | leaf .. => none

def events (s : Scene) (n : Node) : List TraceEvent :=
  (n.evaluated s).filterMap (report? s)

theorem evaluated_eq (s : Scene) (n : Node) :
    n.evaluated s = evaluatedWhile s n.passing? n.children ++ [n] := by
  cases n <;> simp [evaluated, evaluatedWhile, passing?, children]

theorem mem_evaluatedWhile {s : Scene} {passing : Option Status} {m : Node} {ns : List Node} :
    m ∈ evaluatedWhile s passing ns ↔
      ∃ before n after, ns = before ++ n :: after ∧
        (∀ b ∈ before, passing = some (b.decide s).status) ∧ m ∈ n.evaluated s := by
  induction ns with
  | nil => simp [evaluatedWhile]
  | cons n ns ih =>
    rw [evaluatedWhile, List.mem_append]
    constructor
    · rintro (hm | hm)
      · exact ⟨[], n, ns, rfl, List.forall_mem_nil _, hm⟩
      · split at hm
        · next hpass =>
          obtain ⟨before, c, after, rfl, hbefore, hm⟩ := ih.mp hm
          exact ⟨n :: before, c, after, rfl, List.forall_mem_cons.mpr ⟨hpass, hbefore⟩, hm⟩
        · simp at hm
    · rintro ⟨before, c, after, hns, hbefore, hm⟩
      rw [List.cons_eq_append_iff] at hns
      rcases hns with ⟨rfl, hns⟩ | ⟨before, rfl, rfl⟩
      · left
        obtain ⟨rfl, -⟩ := List.cons.inj hns
        exact hm
      · right
        rw [List.forall_mem_cons] at hbefore
        rw [if_pos hbefore.1]
        exact ih.mpr ⟨before, c, after, rfl, hbefore.2, hm⟩

theorem mem_evaluated {s : Scene} {m n : Node} :
    m ∈ n.evaluated s ↔ m = n ∨
      ∃ before c after, n.children = before ++ c :: after ∧
        (∀ b ∈ before, n.passing? = some (b.decide s).status) ∧ m ∈ c.evaluated s := by
  rw [evaluated_eq, List.mem_append, List.mem_singleton, mem_evaluatedWhile, or_comm]

theorem self_mem_evaluated (s : Scene) (n : Node) : n ∈ n.evaluated s := by
  rw [mem_evaluated]
  exact .inl rfl

theorem evaluatedWhile_cases (s : Scene) (passing : Status) (ns : List Node) :
    ((∀ b ∈ ns, (b.decide s).status = passing) ∧
      evaluatedWhile s (some passing) ns = ns.flatMap (evaluated s) ∧
      (decisions s ns).find? (·.status ≠ passing) = none) ∨
    ∃ before c after, ns = before ++ c :: after ∧
      (∀ b ∈ before, (b.decide s).status = passing) ∧
      evaluatedWhile s (some passing) ns = before.flatMap (evaluated s) ++ c.evaluated s ∧
      (decisions s ns).find? (·.status ≠ passing) = some (c.decide s) := by
  induction ns with
  | nil => exact .inl ⟨List.forall_mem_nil _, rfl, rfl⟩
  | cons n ns ih =>
    rw [decisions_cons, evaluatedWhile]
    by_cases h : (n.decide s).status = passing
    · rw [if_pos (by rw [h]), List.find?_cons_of_neg (by simp [h])]
      rcases ih with ⟨hns, hevaluated, hfind⟩ | ⟨before, c, after, rfl, hbefore, hevaluated, hfind⟩
      · left
        refine ⟨List.forall_mem_cons.mpr ⟨h, hns⟩, ?_, hfind⟩
        rw [hevaluated, List.flatMap_cons]
      · right
        refine ⟨n :: before, c, after, rfl, List.forall_mem_cons.mpr ⟨h, hbefore⟩, ?_, hfind⟩
        rw [hevaluated, List.flatMap_cons, List.append_assoc]
    · right
      rw [if_neg (by simpa using Ne.symm h), List.find?_cons_of_pos (by simp [h])]
      exact ⟨[], n, ns, rfl, List.forall_mem_nil _, by simp, rfl⟩

theorem decide_composite (s : Scene) {n : Node} {status : Status} (h : status ∈ n.passing?) :
    n.decide s = .idle status n.id ∨ ∃ before c after, n.children = before ++ c :: after ∧
      (∀ b ∈ before, (b.decide s).status = status) ∧
      n.evaluated s = before.flatMap (evaluated s) ++ c.evaluated s ++ [n] ∧
      n.decide s = c.decide s := by
  cases n with
  | sequence id ns =>
    obtain rfl := Option.some.inj h
    rw [decide_sequence, evaluated, sequenceOf]
    rcases evaluatedWhile_cases s .success ns with
      ⟨hns, hevaluated, hfind⟩ | ⟨before, c, after, hsplit, hbefore, hevaluated, hfind⟩
    · rcases List.eq_nil_or_concat ns with rfl | ⟨before, c, rfl⟩
      · exact .inl rfl
      · rw [List.concat_eq_append] at hns hevaluated hfind ⊢
        rw [List.forall_mem_append] at hns
        refine .inr ⟨before, c, [], rfl, hns.1, ?_, ?_⟩
        · rw [hevaluated, List.flatMap_append, List.flatMap_singleton]
        · rw [hfind]
          simp [decisions]
    · rw [hevaluated, hfind]
      exact .inr ⟨before, c, after, hsplit, hbefore, rfl, rfl⟩
  | fallback id ns =>
    obtain rfl := Option.some.inj h
    rw [decide_fallback, evaluated, fallbackOf]
    rcases evaluatedWhile_cases s .failure ns with
      ⟨-, -, hfind⟩ | ⟨before, c, after, hsplit, hbefore, hevaluated, hfind⟩
    · rw [hfind]
      exact .inl rfl
    · rw [hevaluated, hfind]
      exact .inr ⟨before, c, after, hsplit, hbefore, rfl, rfl⟩
  | decorator | leaf => cases h

def TicksTo (v : View) (c : Context) (n : Node) (status : Status) : Prop :=
  ∃ d, n.tick v c = .ok d ∧ d.status = status

theorem ticksTo_iff {v : View} {c : Context} {s : Scene} (hs : Scene.ofView v c = .ok s) {n : Node}
    {status : Status} : n.TicksTo v c status ↔ (n.decide s).status = status := by
  unfold TicksTo
  rw [tick_of_scene hs]
  constructor
  · rintro ⟨d, hd, hstatus⟩
    rw [Except.ok.inj hd]
    exact hstatus
  · intro hstatus
    exact ⟨_, rfl, hstatus⟩

theorem mem_preorder_of_mem_evaluated {s : Scene} {m n : Node} (h : m ∈ n.evaluated s) :
    m ∈ n.preorder := by
  induction n using childInduction with
  | step n ih =>
    rcases mem_evaluated.mp h with rfl | ⟨before, c, after, hchildren, -, hm⟩
    · exact self_mem_preorder m
    · have hc : c ∈ n.children := by simp [hchildren]
      exact mem_preorder_of_mem_children hc (ih c hc hm)

theorem evaluated_subset {s : Scene} {m n : Node} (h : m ∈ n.evaluated s) :
    m.evaluated s ⊆ n.evaluated s := by
  induction n using childInduction with
  | step n ih =>
    rcases mem_evaluated.mp h with rfl | ⟨before, c, after, hchildren, hbefore, hm⟩
    · exact List.Subset.refl _
    · intro x hx
      have hc : c ∈ n.children := by simp [hchildren]
      exact mem_evaluated.mpr (.inr ⟨before, c, after, hchildren, hbefore, ih c hc hm hx⟩)

end Node

theorem TraceLog.toList_foldl_emit (log : TraceLog) (events : List TraceEvent) :
    (events.foldl TraceSink.emit log).toList = log.toList ++ events := by
  induction events generalizing log with
  | nil => simp
  | cons e events ih =>
    rw [List.foldl_cons, ih]
    simp [TraceSink.emit]

namespace Graph

def Traces (g : Graph) (v : View) (c : Context) (d : Decision) (events : List TraceEvent) : Prop :=
  ∀ (σ : Type) [TraceSink σ] (sink : σ),
    g.tickTraced v c sink = .ok (d, events.foldl TraceSink.emit sink)

theorem traces_of_scene {v : View} {c : Context} {s : Scene} (g : Graph)
    (hs : Scene.ofView v c = .ok s) :
    g.Traces v c (g.root.decide s) (g.root.events s ++
      [⟨c.tick, .fired, (g.root.decide s).node, (g.root.decide s).action.code⟩]) := by
  intro σ _ sink
  rw [tickTraced_of_scene hs, List.foldl_append, Node.events]
  rfl

end Graph

end BattleTree
