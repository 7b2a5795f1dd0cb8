import BattleTree.Binary32.Decimal

/-!
This module contains the preconditions that callers can violate: data whose shape disagrees with
what the environment declares.
-/

namespace BattleTree

inductive Violation where
  | observationLength (expected actual : Nat)
  | teamSizes (rows allies enemies expected : Nat)
  | featureIndex (field : String) (index width : Nat)
  | terrainShape (expectedWidth expectedHeight actualWidth actualHeight : Nat)
  | nonPositive (field : String) (value : Float32)
  | viewMismatch (viewFriends viewFoes friends foes : Nat)
  | treeIndex (member index size : Nat)
  deriving DecidableEq, Repr

def Violation.message : Violation → String
  | observationLength expected actual =>
    s!"observation has {actual} features, layout declares {expected}"
  | teamSizes rows allies enemies expected =>
    s!"layout declares {rows} other-agent rows, " ++
      s!"teams of {allies} allies and {enemies} enemies imply {expected}"
  | featureIndex field index width =>
    s!"feature index {index} of `{field}` is outside a segment of {width} features"
  | terrainShape expectedWidth expectedHeight actualWidth actualHeight =>
    s!"terrain raster is {actualWidth}x{actualHeight}, map is {expectedWidth}x{expectedHeight}"
  | nonPositive field value =>
    s!"`{field}` must be positive and finite, got {Binary32.text value}"
  | viewMismatch viewFriends viewFoes friends foes =>
    s!"observation splits its rows into {viewFriends} friends and {viewFoes} foes, " ++
      s!"context expects {friends} and {foes}"
  | treeIndex member index size =>
    s!"batch member {member} selects tree {index}, bank holds {size}"

end BattleTree
