import BattleTree.Observation.View
import BattleTree.Proofs.Except

/-!
This module contains readings: all features that can be asked of a segment, in one record. A row of
a view that can be read as a whole answers every question with what its record says.
-/

namespace BattleTree

structure TypeFlags where
  marine : Float32
  marauder : Float32
  stalker : Float32
  zealot : Float32
  zergling : Float32
  hydralisk : Float32
  deriving DecidableEq, Repr

namespace TypeFlags

def flag (f : TypeFlags) : UnitType → Float32
  | .marine => f.marine
  | .marauder => f.marauder
  | .stalker => f.stalker
  | .zealot => f.zealot
  | .zergling => f.zergling
  | .hydralisk => f.hydralisk

def toList (f : TypeFlags) : List Float32 :=
  (Keyword.all : List UnitType).map f.flag

def has (f : TypeFlags) (unit : UnitType) : Bool :=
  f.flag unit > 0.5

end TypeFlags

structure Reading where
  health : Float32
  position : Point Float32
  cooldown : Float32
  types : TypeFlags
  deriving DecidableEq, Repr

structure Row extends Reading where
  index : Nat
  deriving DecidableEq, Repr

namespace Row

def isAlive (r : Row) : Bool :=
  r.health > 0

def distance (r : Row) : Float32 :=
  Binary32.distance r.position.x r.position.y

end Row

namespace FeatureSegment

def types (s : FeatureSegment) : Except Fault TypeFlags := do
  return {
    marine := ← s.typeFlag .marine
    marauder := ← s.typeFlag .marauder
    stalker := ← s.typeFlag .stalker
    zealot := ← s.typeFlag .zealot
    zergling := ← s.typeFlag .zergling
    hydralisk := ← s.typeFlag .hydralisk }

def reading (s : FeatureSegment) (layout : Layout) (cooldownColumn : Nat) :
    Except Fault Reading := do
  return {
    health := ← s.feature layout.health
    position := ← s.position layout
    cooldown := ← s.feature cooldownColumn
    types := ← s.types }

theorem typeFlag_of_types {s : FeatureSegment} {types : TypeFlags} (h : s.types = .ok types)
    (unit : UnitType) : s.typeFlag unit = .ok (types.flag unit) := by
  obtain ⟨_, hmarine, h⟩ := bind_eq_ok_iff.mp h
  obtain ⟨_, hmarauder, h⟩ := bind_eq_ok_iff.mp h
  obtain ⟨_, hstalker, h⟩ := bind_eq_ok_iff.mp h
  obtain ⟨_, hzealot, h⟩ := bind_eq_ok_iff.mp h
  obtain ⟨_, hzergling, h⟩ := bind_eq_ok_iff.mp h
  obtain ⟨_, hhydralisk, h⟩ := bind_eq_ok_iff.mp h
  obtain rfl := Except.ok.inj h
  cases unit <;> assumption

theorem hasType_of_types {s : FeatureSegment} {types : TypeFlags} (h : s.types = .ok types)
    (unit : UnitType) : s.hasType unit = .ok (types.has unit) := by
  unfold hasType
  rw [typeFlag_of_types h]
  rfl

structure Reads (s : FeatureSegment) (layout : Layout) (cooldownColumn : Nat) (reading : Reading) :
    Prop where
  health_eq : s.feature layout.health = .ok reading.health
  position_eq : s.position layout = .ok reading.position
  cooldown_eq : s.feature cooldownColumn = .ok reading.cooldown
  types_eq : s.types = .ok reading.types

theorem reading_eq_ok_iff {s : FeatureSegment} {layout : Layout} {cooldownColumn : Nat}
    {reading : Reading} :
    s.reading layout cooldownColumn = .ok reading ↔ s.Reads layout cooldownColumn reading := by
  constructor
  · intro h
    obtain ⟨health, hhealth, h⟩ := bind_eq_ok_iff.mp h
    obtain ⟨position, hposition, h⟩ := bind_eq_ok_iff.mp h
    obtain ⟨cooldown, hcooldown, h⟩ := bind_eq_ok_iff.mp h
    obtain ⟨types, htypes, h⟩ := bind_eq_ok_iff.mp h
    obtain rfl := Except.ok.inj h
    exact ⟨hhealth, hposition, hcooldown, htypes⟩
  · rintro ⟨hhealth, hposition, hcooldown, htypes⟩
    unfold FeatureSegment.reading
    rw [hhealth, hposition, hcooldown, htypes]
    rfl

end FeatureSegment

namespace View

def own (v : View) : Except Fault Reading := do
  (← v.selfSegment).reading v.layout v.layout.selfCooldown

def row (v : View) (index : Nat) : Except Fault Row := do
  let r ← v.featureRow index
  return { ← r.segment.reading r.layout r.layout.otherCooldown with index := r.index }

def rowsIn (v : View) (range : RowRange) : Except Fault (List Row) :=
  if range.stop ≤ v.rowCount then
    range.toList.mapM v.row
  else
    .error (.rowRange range.start range.stop v.rowCount)

def rows (v : View) : Except Fault (List Row) :=
  v.rowsIn ⟨0, v.rowCount⟩

theorem own_eq_ok_iff {v : View} {own : Reading} :
    v.own = .ok own ↔ ∃ s, v.selfSegment = .ok s ∧ s.Reads v.layout v.layout.selfCooldown own := by
  unfold View.own
  simp only [bind_eq_ok_iff, FeatureSegment.reading_eq_ok_iff]

section

variable {v : View} {own : Reading} (h : v.own = .ok own)

include h

theorem selfHealth_of_own : v.selfHealth = .ok own.health := by
  obtain ⟨s, hs, hreads⟩ := own_eq_ok_iff.mp h
  unfold selfHealth
  rw [hs, ok_bind, hreads.health_eq]

theorem selfPosition_of_own : v.selfPosition = .ok own.position := by
  obtain ⟨s, hs, hreads⟩ := own_eq_ok_iff.mp h
  unfold selfPosition
  rw [hs, ok_bind, hreads.position_eq]

theorem selfCooldown_of_own : v.selfCooldown = .ok own.cooldown := by
  obtain ⟨s, hs, hreads⟩ := own_eq_ok_iff.mp h
  unfold selfCooldown
  rw [hs, ok_bind, hreads.cooldown_eq]

theorem selfHasType_of_own (unit : UnitType) :
    v.selfHasType unit = .ok (own.types.has unit) := by
  obtain ⟨s, hs, hreads⟩ := own_eq_ok_iff.mp h
  unfold selfHasType
  rw [hs, ok_bind, FeatureSegment.hasType_of_types hreads.types_eq]

end

end View

namespace FeatureRow

structure Tells (r : FeatureRow) (row : Row) : Prop where
  index_eq : r.index = row.index
  reads : r.segment.Reads r.layout r.layout.otherCooldown row.toReading

namespace Tells

variable {r : FeatureRow} {row : Row} (h : r.Tells row)

include h

theorem health_eq : r.health = .ok row.health :=
  h.reads.health_eq

theorem offset_eq : r.offset = .ok row.position :=
  h.reads.position_eq

theorem cooldown_eq : r.cooldown = .ok row.cooldown :=
  h.reads.cooldown_eq

theorem isAlive_eq : r.isAlive = .ok row.isAlive := by
  unfold FeatureRow.isAlive
  rw [h.health_eq]
  rfl

theorem distance_eq : r.distance = .ok row.distance := by
  unfold FeatureRow.distance
  rw [h.offset_eq]
  rfl

end Tells

end FeatureRow

namespace View

theorem row_eq_ok_iff {v : View} {index : Nat} {row : Row} :
    v.row index = .ok row ↔ ∃ r, v.featureRow index = .ok r ∧ r.Tells row := by
  unfold View.row
  simp only [bind_eq_ok_iff, FeatureSegment.reading_eq_ok_iff]
  constructor
  · rintro ⟨r, hr, reading, hreads, h⟩
    obtain rfl := Except.ok.inj h
    exact ⟨r, hr, rfl, hreads⟩
  · rintro ⟨r, hr, hindex, hreads⟩
    refine ⟨r, hr, row.toReading, hreads, ?_⟩
    rw [hindex]
    rfl

theorem index_of_row {v : View} {i : Nat} {row : Row} (h : v.row i = .ok row) : row.index = i := by
  obtain ⟨r, hr, htells⟩ := row_eq_ok_iff.mp h
  obtain ⟨s, -, hr⟩ := bind_eq_ok_iff.mp hr
  obtain rfl := Except.ok.inj hr
  exact htells.index_eq.symm

theorem exists_featureRowsIn {v : View} {range : RowRange} {rows : List Row}
    (h : v.rowsIn range = .ok rows) :
    ∃ rs, v.featureRowsIn range = .ok rs ∧ List.Forall₂ FeatureRow.Tells rs rows := by
  unfold rowsIn at h
  unfold featureRowsIn
  split at h
  · next hstop =>
    rw [if_pos hstop]
    have hrows := mapM_eq_ok_iff.mp h
    clear h hstop
    generalize range.toList = places at hrows ⊢
    induction hrows with
    | nil => exact ⟨[], rfl, .nil⟩
    | @cons place row places rows hrow _ ih =>
      obtain ⟨r, hr, htells⟩ := row_eq_ok_iff.mp hrow
      obtain ⟨rs, hrs, hall⟩ := ih
      refine ⟨r :: rs, ?_, .cons htells hall⟩
      rw [List.mapM_cons, hr, ok_bind, hrs]
      rfl
  · cases h

end View

end BattleTree
