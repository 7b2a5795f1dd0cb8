import BattleTree.Context
import BattleTree.Proofs.Observation.Reading

/-!
This module contains that views can be read: every column of a usable layout is inside its segment,
every segment is inside the vector, and all rows that a context asks for are rows of the views that
it accepts.
-/

namespace BattleTree

theorem subtract_of_le {minuend subtrahend : Nat} (h : subtrahend ≤ minuend) :
    subtract minuend subtrahend = .ok (minuend - subtrahend) := by
  unfold subtract
  rw [if_pos h]

namespace Layout

structure Usable (l : Layout) : Prop where
  health_lt : l.health < l.otherWidth ∧ l.health < l.selfWidth
  position_lt : l.position + 1 < l.otherWidth ∧ l.position + 1 < l.selfWidth
  cooldown_lt : l.otherCooldown < l.otherWidth ∧ l.selfCooldown < l.selfWidth
  types_le : l.numTypes ≤ l.otherWidth ∧ l.numTypes ≤ l.selfWidth
  count_le : UnitType.count ≤ l.numTypes
  bounded : l.position + 1 < Nat.pow 2 64

theorem validateWith_eq_ok_iff_forall {l : Layout} {y : Nat} :
    l.validateWith y = .ok () ↔ ∀ r ∈ l.requirements y, r.2.1 < r.2.2 := by
  unfold validateWith
  split
  · next field index width hfind =>
    have hmem := List.mem_of_find?_eq_some hfind
    have hle := List.find?_some hfind
    simp only [decide_eq_true_eq] at hle
    constructor
    · simp
    · intro h
      have := h _ hmem
      dsimp only at this
      omega
  · next hfind =>
    rw [List.find?_eq_none] at hfind
    simpa using hfind

theorem validate_eq_ok_iff_bounded {l : Layout} :
    l.validate = .ok () ↔
      l.position + 1 < Nat.pow 2 64 ∧ l.validateWith (l.position + 1) = .ok () := by
  unfold validate
  split
  · next h => cases l.validateWith (l.position + 1) <;> simp [h, Except.mapError]
  · next h => simp [h]

theorem validate_eq_ok_iff_usable {l : Layout} : l.validate = .ok () ↔ l.Usable := by
  rw [validate_eq_ok_iff_bounded, validateWith_eq_ok_iff_forall]
  unfold requirements UnitType.count
  simp only [List.forall_mem_cons, Nat.lt_min]
  constructor
  · rintro ⟨hbounded, hcount, hhealth, hposition, hother, hself, htypes, htypes', -, -⟩
    exact ⟨hhealth, hposition, ⟨hother, hself⟩, by omega, by unfold UnitType.count; omega, hbounded⟩
  · rintro ⟨hhealth, hposition, hcooldown, htypes, hcount, hbounded⟩
    unfold UnitType.count at hcount
    refine ⟨hbounded, by omega, hhealth, hposition, hcooldown.1, hcooldown.2, by omega, by omega,
      by omega, ?_⟩
    simp

theorem typeColumn_of_le {width unit : Nat} (h : UnitType.count ≤ width) :
    typeColumn width unit = .ok (width - UnitType.count + unit) := by
  unfold typeColumn
  rw [subtract_of_le h]
  rfl

end Layout

namespace FeatureSegment

theorem feature_of_lt {s : FeatureSegment} {column : Nat} (h : column < s.features.size) :
    s.feature column = .ok s.features[column] := by
  unfold feature
  rw [Array.getElem?_eq_getElem h]

theorem exists_position {s : FeatureSegment} {layout : Layout}
    (h : layout.position + 1 < s.features.size) : ∃ p, s.position layout = .ok p := by
  unfold position
  rw [feature_of_lt (by omega), feature_of_lt h]
  exact ⟨_, rfl⟩

theorem exists_types {s : FeatureSegment} (h : UnitType.count ≤ s.features.size) :
    ∃ types, s.types = .ok types := by
  -- The flags end with the segment, so the first one needs the width of all of them.
  have hflag (unit : UnitType) : ∃ x, s.typeFlag unit = .ok x := by
    have := unit.index_lt_count
    unfold typeFlag
    rw [Layout.typeColumn_of_le h]
    exact ⟨_, feature_of_lt (by omega)⟩
  obtain ⟨marine, hmarine⟩ := hflag .marine
  obtain ⟨marauder, hmarauder⟩ := hflag .marauder
  obtain ⟨stalker, hstalker⟩ := hflag .stalker
  obtain ⟨zealot, hzealot⟩ := hflag .zealot
  obtain ⟨zergling, hzergling⟩ := hflag .zergling
  obtain ⟨hydralisk, hhydralisk⟩ := hflag .hydralisk
  refine ⟨⟨marine, marauder, stalker, zealot, zergling, hydralisk⟩, ?_⟩
  unfold types
  rw [hmarine, hmarauder, hstalker, hzealot, hzergling, hhydralisk]
  rfl

theorem exists_reading {s : FeatureSegment} {layout : Layout} {cooldownColumn : Nat}
    (hhealth : layout.health < s.features.size) (hposition : layout.position + 1 < s.features.size)
    (hcooldown : cooldownColumn < s.features.size) (htypes : UnitType.count ≤ s.features.size) :
    ∃ reading, s.reading layout cooldownColumn = .ok reading := by
  obtain ⟨position, hposition⟩ := exists_position hposition
  obtain ⟨types, htypes⟩ := exists_types htypes
  exact ⟨⟨_, position, _, types⟩, reading_eq_ok_iff.mpr
    ⟨feature_of_lt hhealth, hposition, feature_of_lt hcooldown, htypes⟩⟩

end FeatureSegment

namespace View

theorem usable (v : View) : v.layout.Usable := by
  exact Layout.validate_eq_ok_iff_usable.mp v.layout_ok

theorem size_data (v : View) :
    v.data.size = v.layout.otherRows * v.layout.otherWidth + v.layout.selfWidth := by
  rw [v.size_eq]
  rfl

theorem slice_eq_ok {v : View} {start stop : Nat} (hle : start ≤ stop)
    (hsize : stop ≤ v.data.size) : v.slice start stop = .ok ⟨v.data.extract start stop⟩ := by
  unfold slice
  rw [if_pos ⟨hle, hsize⟩]

def ownSegment (v : View) : FeatureSegment :=
  ⟨v.data.extract (v.data.size - v.layout.selfWidth) v.data.size⟩

def rowSegment (v : View) (index : Nat) : FeatureSegment :=
  ⟨v.data.extract (index * v.layout.otherWidth) ((index + 1) * v.layout.otherWidth)⟩

theorem selfSegment_eq (v : View) : v.selfSegment = .ok v.ownSegment := by
  have hself : v.layout.selfWidth ≤ v.data.size := by
    rw [v.size_data]
    omega
  unfold selfSegment
  rw [subtract_of_le hself, ok_bind, slice_eq_ok (Nat.sub_le ..) (Nat.le_refl _)]
  rfl

theorem size_ownSegment (v : View) : v.ownSegment.features.size = v.layout.selfWidth := by
  unfold ownSegment
  rw [Array.size_extract, v.size_data]
  omega

theorem row_stop_le {v : View} {index : Nat} (h : index < v.rowCount) :
    (index + 1) * v.layout.otherWidth ≤ v.data.size := by
  rw [v.size_data]
  exact Nat.le_trans (Nat.mul_le_mul_right _ h) (Nat.le_add_right _ _)

theorem featureRow_eq {v : View} {index : Nat} (h : index < v.rowCount) :
    v.featureRow index = .ok { index, segment := v.rowSegment index, layout := v.layout } := by
  unfold featureRow
  dsimp only
  rw [slice_eq_ok (Nat.mul_le_mul_right _ (Nat.le_succ index)) (row_stop_le h)]
  rfl

theorem size_rowSegment {v : View} {index : Nat} (h : index < v.rowCount) :
    (v.rowSegment index).features.size = v.layout.otherWidth := by
  have hstop := row_stop_le h
  unfold rowSegment
  rw [Nat.add_mul, Nat.one_mul] at hstop ⊢
  rw [Array.size_extract]
  omega

theorem own_eq (v : View) :
    v.own = v.ownSegment.reading v.layout v.layout.selfCooldown := by
  unfold View.own
  rw [selfSegment_eq, ok_bind]

theorem row_eq_ok_iff_reads {v : View} {index : Nat} (h : index < v.rowCount) {row : Row} :
    v.row index = .ok row ↔ row.index = index ∧
      (v.rowSegment index).Reads v.layout v.layout.otherCooldown row.toReading := by
  rw [row_eq_ok_iff, featureRow_eq h]
  constructor
  · rintro ⟨r, hr, htells⟩
    obtain rfl := Except.ok.inj hr
    exact ⟨htells.index_eq.symm, htells.reads⟩
  · rintro ⟨hindex, hreads⟩
    exact ⟨_, rfl, hindex.symm, hreads⟩

theorem exists_own (v : View) : ∃ reading, v.own = .ok reading := by
  have husable := v.usable
  rw [own_eq]
  apply FeatureSegment.exists_reading <;> rw [size_ownSegment]
  · exact husable.health_lt.2
  · exact husable.position_lt.2
  · exact husable.cooldown_lt.2
  · exact Nat.le_trans husable.count_le husable.types_le.2

theorem exists_row {v : View} {index : Nat} (h : index < v.rowCount) :
    ∃ row, v.row index = .ok row := by
  have husable := v.usable
  have hreading : ∃ reading,
      (v.rowSegment index).reading v.layout v.layout.otherCooldown = .ok reading := by
    apply FeatureSegment.exists_reading <;> rw [size_rowSegment h]
    · exact husable.health_lt.1
    · exact husable.position_lt.1
    · exact husable.cooldown_lt.1
    · exact Nat.le_trans husable.count_le husable.types_le.1
  obtain ⟨reading, hreading⟩ := hreading
  exact ⟨{ reading with index },
    (row_eq_ok_iff_reads h).mpr ⟨rfl, FeatureSegment.reading_eq_ok_iff.mp hreading⟩⟩

theorem exists_rowsIn {v : View} {range : RowRange} (h : range.stop ≤ v.rowCount) :
    ∃ rows, v.rowsIn range = .ok rows := by
  unfold rowsIn
  rw [if_pos h]
  apply exists_mapM_eq_ok
  intro i hi
  rw [RowRange.mem_toList] at hi
  exact exists_row (by omega)

end View

namespace Context

theorem check_eq_ok_iff {c : Context} {v : View} :
    c.check v = .ok () ↔ v.friendRows = c.friendRows ∧ v.foeRows = c.foeRows := by
  unfold check
  split
  · next h => simp [h]
  · next h => simp [h]

theorem check_eq_error {c : Context} {v : View} (h : c.check v ≠ .ok ()) :
    c.check v = .error (.viewMismatch v.friendRows.size v.foeRows.size c.friendRows.size
      c.foeRows.size) := by
  unfold check at h ⊢
  split
  · next hrows => exact absurd (if_pos hrows) h
  · rfl

theorem friends_le_of_check {c : Context} {v : View} (h : c.check v = .ok ()) :
    v.friendRows.stop ≤ v.rowCount := by
  obtain ⟨hfriends, hfoes⟩ := check_eq_ok_iff.mp h
  simp only [View.friendRows, View.foeRows, View.rowCount, friendRows, foeRows,
    RowRange.mk.injEq] at *
  omega

end Context

end BattleTree
