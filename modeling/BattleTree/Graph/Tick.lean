import BattleTree.Graph.Decision
import BattleTree.Leaf.Evaluate
import BattleTree.Trace.Log

/-!
This module contains the evaluation of trees that stops at the first deciding child. A tick starts
at the root every time and nothing persists between ticks, so that a running child is evaluated
afresh.
-/

namespace BattleTree

def requireObserved (v : View) (c : Context) : Except Fault Unit :=
  (c.check v).mapError .foreignView

namespace Node

variable {σ : Type} [TraceSink σ]

mutual

def run (v : View) (c : Context) : Node → σ → Except Fault (Decision × σ)
  | leaf id atomic, sink => do
    let outcome ← atomic.evaluate v c
    return ({ outcome with node := id },
      TraceSink.emit sink ⟨c.tick, .leaf, id, outcome.action.code⟩)
  | sequence id children, sink => runSequence v c children (.idle .success id) sink
  | fallback id children, sink => runFallback v c children (.idle .failure id) sink
  | decorator id transform child, sink => do
    let (decision, sink) ← child.run v c sink
    let outcome := transform.apply decision.toOutcome
    return ({ outcome with node := id },
      TraceSink.emit sink ⟨c.tick, .decorator, id, outcome.status.code⟩)

def runSequence (v : View) (c : Context) :
    List Node → (last : Decision) → σ → Except Fault (Decision × σ)
  | [], last, sink => return (last, sink)
  | child :: children, _, sink => do
    let (decision, sink) ← child.run v c sink
    if decision.status = .success then
      runSequence v c children decision sink
    else
      return (decision, sink)

def runFallback (v : View) (c : Context) :
    List Node → (exhausted : Decision) → σ → Except Fault (Decision × σ)
  | [], exhausted, sink => return (exhausted, sink)
  | child :: children, exhausted, sink => do
    let (decision, sink) ← child.run v c sink
    if decision.status = .failure then
      runFallback v c children exhausted sink
    else
      return (decision, sink)

end

def tick (n : Node) (v : View) (c : Context) : Except Fault Decision := do
  requireObserved v c
  return (← n.run v c ()).1

end Node

namespace Graph

def tick (g : Graph) (v : View) (c : Context) : Except Fault Decision :=
  g.root.tick v c

def tickTraced {σ : Type} [TraceSink σ] (g : Graph) (v : View) (c : Context) (sink : σ) :
    Except Fault (Decision × σ) := do
  requireObserved v c
  let (decision, sink) ← g.root.run v c sink
  return (decision,
    TraceSink.emit sink ⟨c.tick, .fired, decision.node, decision.action.code⟩)

end Graph

end BattleTree
