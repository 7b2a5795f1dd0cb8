import BattleTree.Binary32.Distance
import BattleTree.Geometry.Segment
import BattleTree.Observation.Layout
import BattleTree.Observation.Range

/-!
This module contains checked views of observation vectors. Every feature is read through
`FeatureSegment.feature`, which refuses columns outside the segment.
-/

namespace BattleTree

structure FeatureSegment where
  features : Array Float32
  deriving DecidableEq, Repr

namespace FeatureSegment

def feature (s : FeatureSegment) (column : Nat) : Except Fault Float32 :=
  match s.features[column]? with
  | some value => .ok value
  | none => .error .outOfRange

def position (s : FeatureSegment) (layout : Layout) : Except Fault (Point Float32) := do
  return ⟨← s.feature layout.position, ← s.feature (layout.position + 1)⟩

def typeFlag (s : FeatureSegment) (unit : UnitType) : Except Fault Float32 := do
  s.feature (← Layout.typeColumn s.features.size unit.index)

def hasType (s : FeatureSegment) (unit : UnitType) : Except Fault Bool := do
  return (← s.typeFlag unit) > 0.5

end FeatureSegment

structure FeatureRow where
  index : Nat
  segment : FeatureSegment
  layout : Layout
  deriving DecidableEq, Repr

namespace FeatureRow

def health (r : FeatureRow) : Except Fault Float32 :=
  r.segment.feature r.layout.health

def isAlive (r : FeatureRow) : Except Fault Bool := do
  return (← r.health) > 0

def offset (r : FeatureRow) : Except Fault (Point Float32) :=
  r.segment.position r.layout

def distance (r : FeatureRow) : Except Fault Float32 := do
  let offset ← r.offset
  return Binary32.distance offset.x offset.y

def cooldown (r : FeatureRow) : Except Fault Float32 :=
  r.segment.feature r.layout.otherCooldown

end FeatureRow

/--
An observation vector with the usable layout that it fits. Its first `friends` rows are the
observer's teammates.
-/
structure View where
  data : Array Float32
  layout : Layout
  friends : Nat
  layout_ok : layout.validate = .ok ()
  size_eq : data.size = layout.length
  deriving DecidableEq, Repr

namespace View

def ofData (data : Array Float32) (layout : Layout) (friends : Nat) : Except Refusal View :=
  match hlayout : layout.validate with
  | .error refusal => .error refusal
  | .ok () =>
    if hsize : data.size = layout.length then
      .ok { data, layout, friends, layout_ok := hlayout, size_eq := hsize }
    else
      match layout.boundedLength with
      | .ok length => .error (.violation (.observationLength length data.size))
      | .error fault => .error (.fault fault)

def friendRows (v : View) : RowRange :=
  ⟨0, v.friends⟩

def foeRows (v : View) : RowRange :=
  ⟨v.friends, v.layout.otherRows⟩

def slice (v : View) (start stop : Nat) : Except Fault FeatureSegment :=
  if start ≤ stop ∧ stop ≤ v.data.size then
    .ok ⟨v.data.extract start stop⟩
  else
    .error .outOfRange

def selfSegment (v : View) : Except Fault FeatureSegment := do
  v.slice (← subtract v.data.size v.layout.selfWidth) v.data.size

def selfHealth (v : View) : Except Fault Float32 := do
  (← v.selfSegment).feature v.layout.health

def selfPosition (v : View) : Except Fault (Point Float32) := do
  (← v.selfSegment).position v.layout

def selfCooldown (v : View) : Except Fault Float32 := do
  (← v.selfSegment).feature v.layout.selfCooldown

def selfHasType (v : View) (unit : UnitType) : Except Fault Bool := do
  (← v.selfSegment).hasType unit

def rowCount (v : View) : Nat :=
  v.layout.otherRows

def featureRow (v : View) (index : Nat) : Except Fault FeatureRow := do
  let width := v.layout.otherWidth
  return {
    index
    segment := ← v.slice (index * width) ((index + 1) * width)
    layout := v.layout }

def featureRowsIn (v : View) (range : RowRange) : Except Fault (List FeatureRow) :=
  if range.stop ≤ v.rowCount then
    range.toList.mapM v.featureRow
  else
    .error (.rowRange range.start range.stop v.rowCount)

end View

end BattleTree
