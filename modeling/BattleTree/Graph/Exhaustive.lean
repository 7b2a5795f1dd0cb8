import BattleTree.Graph.Tick

/-!
This module contains the evaluation of trees that runs every node, so that its cost does not depend
on the data, and then selects the result of each composite.
-/

namespace BattleTree

namespace Node

def select (decides : Decision → Bool) (init : Decision) (decisions : List Decision) :
    Option Decision × Decision :=
  decisions.foldl
    (fun (hit, _) decision => (hit.or (if decides decision then some decision else none), decision))
    (none, init)

mutual

def decideExhaustively (v : View) (c : Context) : Node → Except Fault Decision
  | leaf id atomic => return { ← atomic.evaluate v c with node := id }
  | sequence id children => do
    let init := .idle .success id
    let (hit, last) := select (·.status ≠ .success) init (← decideAll v c children)
    return hit.getD last
  | fallback id children => do
    let init := .idle .failure id
    let (hit, _) := select (·.status ≠ .failure) init (← decideAll v c children)
    return hit.getD init
  | decorator id transform child => do
    let decision ← child.decideExhaustively v c
    return { transform.apply decision.toOutcome with node := id }

def decideAll (v : View) (c : Context) : List Node → Except Fault (List Decision)
  | [] => return []
  | n :: ns => return (← n.decideExhaustively v c) :: (← decideAll v c ns)

end

end Node

def Graph.tickExhaustive (g : Graph) (v : View) (c : Context) : Except Fault Decision := do
  requireObserved v c
  g.root.decideExhaustively v c

end BattleTree
