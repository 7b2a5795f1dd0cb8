import BattleTree.Proofs.Except
import BattleTree.Proofs.Graph.Tracing
import Mathlib.Data.List.SplitBy

/-!
This module contains what a log tells about the ticks that share it: which events belong to each of
them, which node decided it, and what a filter in front of the log leaves out.
-/

namespace BattleTree

structure TracedTick where
  graph : Graph
  view : View
  context : Context

namespace TracedTick

section

variable {σ : Type} [TraceSink σ]

def run (t : TracedTick) (sink : σ) : Except Fault (Decision × σ) :=
  t.graph.tickTraced t.view t.context sink

def runAll : List TracedTick → σ → Except Fault (List Decision × σ)
  | [], sink => return ([], sink)
  | t :: ts, sink => do
    let (d, sink) ← t.run sink
    let (ds, sink) ← runAll ts sink
    return (d :: ds, sink)

end

/-- What a tick comes to, and the log that it leaves by itself: its last event alone is `fired`. -/
structure Leaves (t : TracedTick) (result : Decision × TraceLog) : Prop where
  run_eq : t.run TraceLog.empty = .ok result
  traces : t.graph.Traces t.view t.context result.1 result.2.toList
  closes : ∃ init, result.2.toList =
      init ++ [⟨t.context.tick, .fired, result.1.node, result.1.action.code⟩] ∧
    ∀ e ∈ init, e.kind ≠ .fired

end TracedTick

theorem Node.kind_ne_fired {s : Scene} {n : Node} {e : TraceEvent} (h : e ∈ n.events s) :
    e.kind ≠ .fired := by
  obtain ⟨m, -, hreport⟩ := List.mem_filterMap.mp h
  cases m with
  | leaf | decorator =>
    obtain rfl := Option.some.inj hreport
    exact nofun
  | sequence | fallback => cases hreport

theorem KindFilter.foldl_emit {σ : Type} [TraceSink σ] (kinds : List EventKind) (inner : σ)
    (events : List TraceEvent) :
    events.foldl TraceSink.emit (⟨kinds, inner⟩ : KindFilter σ) =
      ⟨kinds, (events.filter (·.kind ∈ kinds)).foldl TraceSink.emit inner⟩ := by
  induction events generalizing inner with
  | nil => rfl
  | cons e events ih =>
    rw [List.foldl_cons, List.filter_cons]
    by_cases h : e.kind ∈ kinds
    · rw [if_pos (decide_eq_true h), List.foldl_cons, ← ih]
      congr 1
      exact if_pos h
    · rw [if_neg (by simpa using h), ← ih]
      congr 1
      exact if_neg h

namespace TraceLog

def ticks (log : TraceLog) : List (List TraceEvent) :=
  log.toList.splitBy fun e _ => e.kind ≠ .fired

theorem ofKind_of_filter {log filtered : TraceLog} {kinds : List EventKind}
    (h : filtered.toList = log.toList.filter (·.kind ∈ kinds)) (kind : EventKind) :
    filtered.ofKind kind = if kind ∈ kinds then log.ofKind kind else [] := by
  unfold ofKind
  rw [h, List.filter_filter]
  split
  · next hkind =>
    apply List.filter_congr
    intro e _
    by_cases he : e.kind = kind
    · simp [he, hkind]
    · simp [he]
  · next hkind =>
    rw [List.filter_eq_nil_iff]
    rintro e - he
    simp only [Bool.and_eq_true, decide_eq_true_eq] at he
    obtain ⟨rfl, hmem⟩ := he
    exact hkind hmem

theorem atTick_of_filter {log filtered : TraceLog} {kinds : List EventKind}
    (h : filtered.toList = log.toList.filter (·.kind ∈ kinds)) (tick : UInt64) :
    filtered.atTick tick = (log.atTick tick).filter (·.kind ∈ kinds) := by
  unfold atTick
  rw [h, List.filter_comm]

theorem fired_of_filter {log filtered : TraceLog} {kinds : List EventKind}
    (h : filtered.toList = log.toList.filter (·.kind ∈ kinds)) :
    filtered.fired = if .fired ∈ kinds then log.fired else [] := by
  unfold fired
  rw [ofKind_of_filter h]
  split
  · rfl
  · rfl

end TraceLog

namespace TracedTick

section

variable {ts : List TracedTick} {t : TracedTick} {result : Decision × TraceLog}
  {results : List (Decision × TraceLog)} {log : TraceLog}

theorem exists_leaves (h : t.context.check t.view = .ok ()) : ∃ result, t.Leaves result := by
  obtain ⟨s, hs⟩ := Scene.exists_ofView h
  have htraces := Graph.traces_of_scene t.graph hs
  refine ⟨_, htraces TraceLog TraceLog.empty, ?traces, ?closes⟩
  case traces =>
    rw [TraceLog.toList_foldl_emit]
    exact htraces
  case closes =>
    rw [TraceLog.toList_foldl_emit]
    exact ⟨t.graph.root.events s, rfl, fun e => Node.kind_ne_fired⟩

theorem runAll_eq {σ : Type} [TraceSink σ] (h : List.Forall₂ Leaves ts results) (sink : σ) :
    runAll ts sink = .ok (results.map Prod.fst,
      (results.flatMap (·.2.toList)).foldl TraceSink.emit sink) := by
  induction h generalizing sink with
  | nil => rfl
  | @cons t result ts results hleaves _ ih =>
    rw [runAll, run, hleaves.traces σ sink, ok_bind]
    dsimp only
    rw [ih, ok_bind, List.flatMap_cons, List.foldl_append]
    rfl

theorem exists_log (h : List.Forall₂ Leaves ts results) :
    ∃ log, runAll ts TraceLog.empty = .ok (results.map Prod.fst, log) ∧
      log.toList = results.flatMap (·.2.toList) := by
  refine ⟨_, runAll_eq h TraceLog.empty, ?_⟩
  rw [TraceLog.toList_foldl_emit, TraceLog.toList_empty, List.nil_append]

theorem exists_filtered_log (h : List.Forall₂ Leaves ts results) (kinds : List EventKind) :
    ∃ filtered, runAll ts (⟨kinds, TraceLog.empty⟩ : KindFilter TraceLog) =
        .ok (results.map Prod.fst, ⟨kinds, filtered⟩) ∧
      filtered.toList = (results.flatMap (·.2.toList)).filter (·.kind ∈ kinds) := by
  have hrun := runAll_eq h (⟨kinds, TraceLog.empty⟩ : KindFilter TraceLog)
  rw [KindFilter.foldl_emit] at hrun
  refine ⟨_, hrun, ?_⟩
  rw [TraceLog.toList_foldl_emit, TraceLog.toList_empty, List.nil_append]

theorem exists_cut {trace : List TraceEvent} (h : List.Forall₂ Leaves ts results)
    (htrace : trace ∈ results.map (·.2.toList)) :
    ∃ init e, trace = init ++ [e] ∧ e.kind = .fired ∧ ∀ x ∈ init, x.kind ≠ .fired := by
  obtain ⟨result, hresult, rfl⟩ := List.mem_map.mp htrace
  obtain ⟨t, -, hleaves⟩ := exists_of_mem_forall₂ h hresult
  obtain ⟨init, heq, hinit⟩ := hleaves.closes
  exact ⟨init, _, heq, rfl, hinit⟩

theorem ticks_eq (h : List.Forall₂ Leaves ts results)
    (hlog : log.toList = results.flatMap (·.2.toList)) :
    log.ticks = results.map (·.2.toList) := by
  unfold TraceLog.ticks
  rw [hlog, List.flatMap_def]
  apply List.splitBy_flatten
  case hn =>
    intro hnil
    obtain ⟨init, e, heq, -⟩ := exists_cut h hnil
    simp at heq
  case hc =>
    intro trace htrace
    obtain ⟨init, e, rfl, -, hinit⟩ := exists_cut h htrace
    rw [List.isChain_append]
    refine ⟨?_, List.isChain_singleton e, ?_⟩
    · apply List.Pairwise.isChain
      apply List.pairwise_of_forall_mem_list
      intro x hx y _
      exact decide_eq_true (hinit x hx)
    · intro x hx y _
      exact decide_eq_true (hinit x (List.mem_of_mem_getLast? hx))
  case hc' =>
    apply List.Pairwise.isChain
    apply List.pairwise_of_forall_mem_list
    intro trace htrace trace' htrace'
    obtain ⟨init, e, rfl, hkind, -⟩ := exists_cut h htrace
    obtain ⟨init', e', rfl, -⟩ := exists_cut h htrace'
    exact ⟨by simp, by simp, by simp [hkind]⟩

theorem fired_eq (h : List.Forall₂ Leaves ts results)
    (hlog : log.toList = results.flatMap (·.2.toList)) :
    log.fired = ts.zipWith (fun t result => (t.context.tick, result.1.node)) results := by
  unfold TraceLog.fired TraceLog.ofKind
  rw [hlog]
  clear hlog
  induction h with
  | nil => rfl
  | @cons t result ts results hleaves _ ih =>
    obtain ⟨init, heq, hinit⟩ := hleaves.closes
    have hnone : init.filter (·.kind = .fired) = [] := by
      rw [List.filter_eq_nil_iff]
      intro e he
      simpa using hinit e he
    rw [List.flatMap_cons, List.filter_append, List.map_append, ih, heq, List.filter_append, hnone]
    rfl

end

end TracedTick

end BattleTree
