import BattleTree.Catalog.Domain
import BattleTree.Observation.View

/-!
This module contains the choice of rows: the living ones of a team, and the best one of some rows by
a rule.
-/

namespace BattleTree

namespace FeatureRow

def isUnit (r : FeatureRow) : Option UnitType → Except Fault Bool
  | none => .ok true
  | some unit => r.segment.hasType unit

end FeatureRow

namespace View

def teamRows (v : View) : Team → RowRange
  | .foe => v.foeRows
  | .friend => v.friendRows

def alive (v : View) (team : Team) (unit : Option UnitType) : Except Fault (List FeatureRow) := do
  (← v.featureRowsIn (v.teamRows team)).filterM fun row => do
    if ← row.isAlive then row.isUnit unit else return false

end View

namespace Qualifier

def keyOf (q : Qualifier) (row : FeatureRow) : Except Fault Float32 :=
  if q.byHealth then row.health else row.distance

def beats (q : Qualifier) (candidate incumbent : Float32) : Bool :=
  if q.prefersLeast then candidate < incumbent else candidate > incumbent

def consider (q : Qualifier) (best : Option (FeatureRow × Float32)) (row : FeatureRow) :
    Except Fault (Option (FeatureRow × Float32)) := do
  let key ← q.keyOf row
  match best with
  | some (incumbent, bestKey) =>
    return if q.beats key bestKey then some (row, key) else some (incumbent, bestKey)
  | none => return some (row, key)

def choose (q : Qualifier) (rows : List FeatureRow) : Except Fault (Option FeatureRow) := do
  return (← rows.foldlM q.consider none).map Prod.fst

end Qualifier

end BattleTree
