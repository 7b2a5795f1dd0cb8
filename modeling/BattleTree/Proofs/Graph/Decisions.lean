import BattleTree.Graph.Exhaustive
import BattleTree.Proofs.Scene.Evaluate

/-!
This module contains what nodes decide in a scene, said by the decisions of their children alone,
and that every way of evaluating a node comes to this decision. Evaluation that stops early reports
the nodes that it is done with, in their order.
-/

namespace BattleTree

namespace Node

def sequenceOf (last : Decision) (ds : List Decision) : Decision :=
  (ds.find? (·.status ≠ .success)).getD (ds.getLastD last)

def fallbackOf (exhausted : Decision) (ds : List Decision) : Decision :=
  (ds.find? (·.status ≠ .failure)).getD exhausted

theorem sequenceOf_cons (last d : Decision) (ds : List Decision) :
    sequenceOf last (d :: ds) = if d.status = .success then sequenceOf d ds else d := by
  unfold sequenceOf
  split
  · next h =>
    rw [List.find?_cons_of_neg (by simp [h]), List.getLastD_cons]
  · next h =>
    rw [List.find?_cons_of_pos (by simp [h])]
    rfl

theorem fallbackOf_cons (exhausted d : Decision) (ds : List Decision) :
    fallbackOf exhausted (d :: ds) =
      if d.status = .failure then fallbackOf exhausted ds else d := by
  unfold fallbackOf
  split
  · next h => rw [List.find?_cons_of_neg (by simp [h])]
  · next h =>
    rw [List.find?_cons_of_pos (by simp [h])]
    rfl

mutual

def decide (s : Scene) : Node → Decision
  | leaf id atomic => { s.evaluate atomic with node := id }
  | sequence id ns => sequenceOf (.idle .success id) (decideEach s ns)
  | fallback id ns => fallbackOf (.idle .failure id) (decideEach s ns)
  | decorator id transform n => { transform.apply (n.decide s).toOutcome with node := id }

def decideEach (s : Scene) : List Node → List Decision
  | [] => []
  | n :: ns => n.decide s :: decideEach s ns

end

def decisions (s : Scene) (ns : List Node) : List Decision :=
  ns.map fun n => n.decide s

@[simp]
theorem decisions_cons (s : Scene) (n : Node) (ns : List Node) :
    decisions s (n :: ns) = n.decide s :: decisions s ns := by
  rfl

theorem decideEach_eq (s : Scene) (ns : List Node) : decideEach s ns = decisions s ns := by
  induction ns with
  | nil => rfl
  | cons n ns ih => rw [decideEach, ih, decisions_cons]

section

variable (s : Scene) (id : NodeId)

theorem decide_leaf (atomic : Atomic) :
    (leaf id atomic).decide s = { s.evaluate atomic with node := id } := by
  rw [decide]

theorem decide_sequence (ns : List Node) :
    (sequence id ns).decide s = sequenceOf (.idle .success id) (decisions s ns) := by
  rw [decide, decideEach_eq]

theorem decide_fallback (ns : List Node) :
    (fallback id ns).decide s = fallbackOf (.idle .failure id) (decisions s ns) := by
  rw [decide, decideEach_eq]

theorem decide_decorator (transform : Transform) (n : Node) :
    (decorator id transform n).decide s =
      { transform.apply (n.decide s).toOutcome with node := id } := by
  rw [decide]

end

mutual

/-- The nodes that are evaluated, in the order in which they are done. -/
def evaluated (s : Scene) : Node → List Node
  | sequence id ns => evaluatedWhile s (some .success) ns ++ [sequence id ns]
  | fallback id ns => evaluatedWhile s (some .failure) ns ++ [fallback id ns]
  | decorator id transform n => n.evaluated s ++ [decorator id transform n]
  | leaf id atomic => [leaf id atomic]

def evaluatedWhile (s : Scene) (passing : Option Status) : List Node → List Node
  | [] => []
  | n :: ns =>
    n.evaluated s ++ if passing = some (n.decide s).status then evaluatedWhile s passing ns else []

end

def report? (s : Scene) (n : Node) : Option TraceEvent :=
  match n with
  | leaf id _ => some ⟨s.context.tick, .leaf, id, (n.decide s).action.code⟩
  | decorator id .. => some ⟨s.context.tick, .decorator, id, (n.decide s).status.code⟩
  | sequence .. | fallback .. => none

section

variable {σ : Type} [TraceSink σ]

def emitAll (s : Scene) (ns : List Node) (sink : σ) : σ :=
  (ns.filterMap (report? s)).foldl TraceSink.emit sink

theorem emitAll_append (s : Scene) (ms ns : List Node) (sink : σ) :
    emitAll s (ms ++ ns) sink = emitAll s ns (emitAll s ms sink) := by
  simp [emitAll]

theorem emitAll_composite {s : Scene} {n : Node} (h : n.report? s = none) (sink : σ) :
    emitAll s [n] sink = sink := by
  simp [emitAll, h]

variable {s : Scene} {v : View} {c : Context}

mutual

theorem run_eq (hs : s.Depicts v c) (n : Node) (sink : σ) :
    n.run v c sink = .ok (n.decide s, emitAll s (n.evaluated s) sink) := by
  cases n with
  | leaf id atomic =>
    rw [run, hs.evaluate_eq, ← hs.context_eq]
    rfl
  | sequence id ns =>
    rw [run, decide_sequence, evaluated, emitAll_append, emitAll_composite rfl]
    exact runSequence_eq hs ns _ sink
  | fallback id ns =>
    rw [run, decide_fallback, evaluated, emitAll_append, emitAll_composite rfl]
    exact runFallback_eq hs ns _ sink
  | decorator id transform n =>
    rw [run, evaluated, emitAll_append, run_eq hs n sink, ← hs.context_eq]
    rfl

theorem runSequence_eq (hs : s.Depicts v c) (ns : List Node) (last : Decision) (sink : σ) :
    runSequence v c ns last sink =
      .ok (sequenceOf last (decisions s ns),
        emitAll s (evaluatedWhile s (some .success) ns) sink) := by
  cases ns with
  | nil => rfl
  | cons n ns =>
    rw [runSequence, decisions_cons, evaluatedWhile, sequenceOf_cons, emitAll_append,
      run_eq hs n sink, ok_bind]
    dsimp only
    split
    · next h => rw [runSequence_eq hs ns, if_pos (by rw [h])]
    · next h =>
      rw [if_neg (by simpa using Ne.symm h)]
      rfl

theorem runFallback_eq (hs : s.Depicts v c) (ns : List Node) (exhausted : Decision) (sink : σ) :
    runFallback v c ns exhausted sink =
      .ok (fallbackOf exhausted (decisions s ns),
        emitAll s (evaluatedWhile s (some .failure) ns) sink) := by
  cases ns with
  | nil => rfl
  | cons n ns =>
    rw [runFallback, decisions_cons, evaluatedWhile, fallbackOf_cons, emitAll_append,
      run_eq hs n sink, ok_bind]
    dsimp only
    split
    · next h => rw [runFallback_eq hs ns, if_pos (by rw [h])]
    · next h =>
      rw [if_neg (by simpa using Ne.symm h)]
      rfl

end

end

theorem foldl_select (decides : Decision → Bool) (hit : Option Decision) (last : Decision)
    (ds : List Decision) :
    ds.foldl (fun (hit, _) d => (hit.or (if decides d then some d else none), d)) (hit, last) =
      (hit.or (ds.find? decides), ds.getLastD last) := by
  -- Once there is a hit, only the last decision still changes.
  induction ds generalizing hit last with
  | nil => simp
  | cons d ds ih =>
    rw [List.foldl_cons]
    dsimp only
    rw [ih, Option.or_assoc, List.getLastD_cons, List.find?_cons]
    cases decides d <;> rfl

theorem select_eq (decides : Decision → Bool) (init : Decision) (ds : List Decision) :
    select decides init ds = (ds.find? decides, ds.getLastD init) := by
  unfold select
  rw [foldl_select, Option.none_or]

mutual

theorem decideExhaustively_eq {s : Scene} {v : View} {c : Context} (hs : s.Depicts v c)
    (n : Node) : n.decideExhaustively v c = .ok (n.decide s) := by
  cases n with
  | leaf id atomic =>
    rw [decideExhaustively, hs.evaluate_eq]
    rfl
  | sequence id ns =>
    rw [decideExhaustively, decide_sequence, decideAll_eq hs ns, ok_bind, select_eq]
    rfl
  | fallback id ns =>
    rw [decideExhaustively, decide_fallback, decideAll_eq hs ns, ok_bind, select_eq]
    rfl
  | decorator id transform n =>
    rw [decideExhaustively, decide, decideExhaustively_eq hs n]
    rfl

theorem decideAll_eq {s : Scene} {v : View} {c : Context} (hs : s.Depicts v c)
    (ns : List Node) : decideAll v c ns = .ok (decisions s ns) := by
  cases ns with
  | nil => rfl
  | cons n ns =>
    rw [decideAll, decideExhaustively_eq hs n, decideAll_eq hs ns]
    rfl

end

end Node

end BattleTree
