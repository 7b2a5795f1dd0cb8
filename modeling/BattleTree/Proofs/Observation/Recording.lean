import BattleTree.Observation.Buffer
import BattleTree.Proofs.Observation.Acceptance

/-!
This module contains that an observation vector under construction is a record of its segments:
views of it read what was last written to a field, whatever was written to other fields since. The
setters compute places in one flat vector, so most of this is that no two fields share a place. An
accepted layout need not have such a vector, if it asks for more features than memory holds.
-/

namespace BattleTree

inductive SegmentName where
  | own
  | row (index : Nat)
  deriving DecidableEq, Repr

namespace SegmentName

def width (l : Layout) : SegmentName → Nat
  | own => l.selfWidth
  | row _ => l.otherWidth

def cooldownColumn (l : Layout) : SegmentName → Nat
  | own => l.selfCooldown
  | row _ => l.otherCooldown

def base (l : Layout) : SegmentName → Nat
  | own => l.otherRows * l.otherWidth
  | row index => index * l.otherWidth

def IsIn (l : Layout) : SegmentName → Prop
  | own => True
  | row index => index < l.otherRows

instance (l : Layout) : (s : SegmentName) → Decidable (s.IsIn l)
  | own => inferInstanceAs (Decidable True)
  | row index => inferInstanceAs (Decidable (index < l.otherRows))

def measureColumns (l : Layout) (s : SegmentName) : List Nat :=
  [l.health, l.position, l.position + 1, s.cooldownColumn l]

def Separated (l : Layout) (s : SegmentName) : Prop :=
  (s.measureColumns l).Nodup ∧ ∀ column ∈ s.measureColumns l, column < s.width l - l.numTypes

instance (l : Layout) (s : SegmentName) : Decidable (s.Separated l) :=
  inferInstanceAs (Decidable (_ ∧ _))

def flagColumn (l : Layout) (s : SegmentName) (unit : Nat) : Nat :=
  s.width l - UnitType.count + unit

def reading (v : View) : SegmentName → Except Fault Reading
  | own => v.own
  | row index => return (← v.row index).toReading

end SegmentName

structure Measures where
  health : Float32
  x : Float32
  y : Float32
  cooldown : Float32
  deriving DecidableEq, Repr

def Measures.zero : Measures :=
  { health := 0, x := 0, y := 0, cooldown := 0 }

namespace Buffer

inductive Write where
  | measures (s : SegmentName) (m : Measures)
  | raise (s : SegmentName) (unit : Nat)
  | clear (row : Nat)
  deriving DecidableEq, Repr

def put (b : Buffer) : Write → Except Fault Buffer
  | .measures .own m => b.setSelf m.health m.x m.y m.cooldown
  | .measures (.row index) m => b.setRow index m.health m.x m.y m.cooldown
  | .raise .own unit => b.setSelfType unit
  | .raise (.row index) unit => b.setRowType index unit
  | .clear row => b.clearRow row

def putAll (b : Buffer) (writes : List Write) : Except Fault Buffer :=
  writes.foldlM put b

namespace Write

def Fits (l : Layout) : Write → Prop
  | measures s _ => s.IsIn l
  | raise s unit => s.IsIn l ∧ unit < UnitType.count
  | clear row => row < l.otherRows

instance (l : Layout) : (w : Write) → Decidable (w.Fits l)
  | measures s _ => inferInstanceAs (Decidable (s.IsIn l))
  | raise s unit => inferInstanceAs (Decidable (s.IsIn l ∧ unit < UnitType.count))
  | clear row => inferInstanceAs (Decidable (row < l.otherRows))

def measures? (s : SegmentName) : Write → Option Measures
  | measures s' m => if s' = s then some m else none
  | raise .. => none
  | clear row => if .row row = s then some .zero else none

def unit? (s : SegmentName) : Write → Option (Option Nat)
  | measures .. => none
  | raise s' unit => if s' = s then some (some unit) else none
  | clear row => if .row row = s then some none else none

end Write

def lastMeasures (writes : List Write) (s : SegmentName) : Measures :=
  (writes.reverse.findSome? fun w => w.measures? s).getD .zero

def lastUnit (writes : List Write) (s : SegmentName) : Option Nat :=
  (writes.reverse.findSome? fun w => w.unit? s).join

def measure? (l : Layout) (s : SegmentName) (m : Measures) (column : Nat) : Option Float32 :=
  if column = l.health then some m.health
  else if column = l.position then some m.x
  else if column = l.position + 1 then some m.y
  else if column = s.cooldownColumn l then some m.cooldown
  else none

def flag (l : Layout) (s : SegmentName) (unit : Option Nat) (column : Nat) : Float32 :=
  if unit.map (s.flagColumn l) = some column then 1 else 0

/-- The feature of a segment in a column. It is zero but in the columns of measures and flags. -/
def feature (l : Layout) (s : SegmentName) (m : Measures) (unit : Option Nat) (column : Nat) :
    Float32 :=
  (measure? l s m column).getD (flag l s unit column)

/-- Every segment of a buffer holds what was last written to it. -/
structure Records (b : Buffer) (writes : List Write) : Prop where
  size_eq : b.data.size = b.layout.length
  data_eq : ∀ s : SegmentName, s.IsIn b.layout → ∀ column < s.width b.layout,
    b.data[s.base b.layout + column]? =
      some (feature b.layout s (lastMeasures writes s) (lastUnit writes s) column)

end Buffer

namespace SegmentName

variable {l : Layout} {s s' : SegmentName} {column column' : Nat}

theorem row_lt {index index' : Nat} (h : index < index') (hcolumn : column < l.otherWidth) :
    index * l.otherWidth + column < index' * l.otherWidth :=
  calc index * l.otherWidth + column < (index + 1) * l.otherWidth := by
        rw [Nat.add_mul, Nat.one_mul]
        omega
    _ ≤ index' * l.otherWidth := Nat.mul_le_mul_right _ h

theorem stop_le (h : s.IsIn l) : s.base l + s.width l ≤ l.length := by
  unfold Layout.length
  cases s with
  | own => exact Nat.le_refl _
  | row index =>
    have hrow : (index + 1) * l.otherWidth ≤ l.otherRows * l.otherWidth :=
      Nat.mul_le_mul_right _ h
    rw [Nat.add_mul, Nat.one_mul] at hrow
    exact Nat.le_trans hrow (Nat.le_add_right ..)

theorem place_lt (h : s.IsIn l) (hcolumn : column < s.width l) :
    s.base l + column < l.length := by
  exact Nat.lt_of_lt_of_le (Nat.add_lt_add_left hcolumn _) (stop_le h)

theorem place_inj (h : s.IsIn l) (h' : s'.IsIn l) (hcolumn : column < s.width l)
    (hcolumn' : column' < s'.width l) :
    s.base l + column = s'.base l + column' ↔ s = s' ∧ column = column' := by
  constructor
  · intro heq
    cases s with
    | own =>
      cases s' with
      | own => exact ⟨rfl, Nat.add_left_cancel heq⟩
      | row index' =>
        have := row_lt h' hcolumn'
        simp only [base] at heq
        omega
    | row index =>
      cases s' with
      | own =>
        have := row_lt h hcolumn
        simp only [base] at heq
        omega
      | row index' =>
        simp only [base, width] at *
        rcases Nat.lt_trichotomy index index' with hlt | rfl | hlt
        · have := row_lt hlt hcolumn
          omega
        · exact ⟨rfl, Nat.add_left_cancel heq⟩
        · have := row_lt hlt hcolumn'
          omega
  · rintro ⟨rfl, rfl⟩
    rfl

theorem numTypes_le (h : l.Usable) (s : SegmentName) : l.numTypes ≤ s.width l := by
  cases s with
  | own => exact h.types_le.2
  | row index => exact h.types_le.1

end SegmentName

namespace Buffer

variable {b b' b'' : Buffer} {s : SegmentName}

structure Changes (b b' : Buffer) (new : SegmentName → Nat → Option Float32) : Prop where
  layout_eq : b'.layout = b.layout
  size_eq : b'.data.size = b.data.size
  data_eq : ∀ s : SegmentName, s.IsIn b.layout → ∀ column < s.width b.layout,
    b'.data[s.base b.layout + column]? = (new s column).or b.data[s.base b.layout + column]?

theorem Changes.refl (b : Buffer) : Changes b b fun _ _ => none := by
  exact ⟨rfl, rfl, fun _ _ _ _ => rfl⟩

theorem Changes.congr {new new' : SegmentName → Nat → Option Float32} (h : Changes b b' new)
    (hnew : ∀ s column, new s column = new' s column) : Changes b b' new' := by
  obtain rfl : new = new' := funext fun s => funext (hnew s)
  exact h

variable {new : SegmentName → Nat → Option Float32}

theorem Changes.exists_write (h : Changes b b' new) (hsize : b.data.size = b.layout.length)
    (hs : s.IsIn b.layout) (column : Nat) (hcolumn : column < s.width b.layout) (value : Float32) :
    ∃ b'', b'.write (s.base b.layout + column) value = .ok b'' ∧
      Changes b b'' fun s' column' =>
        if s' = s ∧ column' = column then some value else new s' column' := by
  have hlt := SegmentName.place_lt hs hcolumn
  rw [← hsize, ← h.size_eq] at hlt
  refine ⟨_, if_pos hlt, h.layout_eq, Array.size_setIfInBounds.trans h.size_eq, ?_⟩
  intro s' hs' column' hcolumn'
  rw [Array.getElem?_setIfInBounds, h.data_eq s' hs' column' hcolumn']
  simp only [SegmentName.place_inj hs hs' hcolumn hcolumn', eq_comm (a := s), eq_comm (a := column)]
  by_cases heq : s' = s ∧ column' = column
  · rw [if_pos heq, if_pos heq, if_pos (by omega)]
    rfl
  · rw [if_neg heq, if_neg heq]

theorem getElem?_zeroFrom {data : Array Float32} {start count i : Nat} (hi : i < data.size) :
    (zeroFrom data start count)[i]? =
      if start ≤ i ∧ i < start + count then some 0 else data[i]? := by
  induction count with
  | zero =>
    rw [zeroFrom, if_neg (by omega)]
  | succ count ih =>
    rw [zeroFrom, Array.getElem?_setIfInBounds, ih, size_zeroFrom]
    by_cases h : start + count = i
    · rw [if_pos h, h, if_pos hi, if_pos (by omega)]
    · rw [if_neg h]
      simp only [show i < start + (count + 1) ↔ i < start + count ∨ start + count = i by omega, h,
        or_false]

theorem exists_zero (hsize : b.data.size = b.layout.length) (hs : s.IsIn b.layout)
    {first last : Nat} (hle : first ≤ last) (hlast : last ≤ s.width b.layout) :
    ∃ b', b.zero (s.base b.layout + first) (s.base b.layout + last) = .ok b' ∧
      Changes b b' fun s' column =>
        if s' = s ∧ first ≤ column ∧ column < last then some 0 else none := by
  have hstop := SegmentName.stop_le hs
  refine ⟨_, if_pos (by omega), rfl, size_zeroFrom .., ?_⟩
  intro s' hs' column hcolumn
  have hlt := SegmentName.place_lt hs' hcolumn
  rw [getElem?_zeroFrom (by omega)]
  have hplace : (s.base b.layout + first ≤ s'.base b.layout + column ∧
      s'.base b.layout + column < s.base b.layout + first +
        (s.base b.layout + last - (s.base b.layout + first))) ↔
      s' = s ∧ first ≤ column ∧ column < last := by
    constructor
    · rintro ⟨hfirst, hless⟩
      -- The place is one of a column of the segment that is zeroed.
      obtain ⟨column', hcolumn'⟩ := Nat.exists_eq_add_of_le (Nat.le_of_add_right_le hfirst)
      have hwidth : column' < s.width b.layout := by omega
      obtain ⟨rfl, rfl⟩ := (SegmentName.place_inj hs' hs hcolumn hwidth).mp hcolumn'
      exact ⟨rfl, by omega, by omega⟩
    · rintro ⟨rfl, hfirst, hless⟩
      omega
  simp only [hplace]
  split <;> rfl

theorem exists_writeReadings (hsize : b.data.size = b.layout.length) (hs : s.IsIn b.layout)
    (hseparated : s.Separated b.layout) (m : Measures) :
    ∃ b', b.writeReadings (s.base b.layout) (s.cooldownColumn b.layout) m.health m.x m.y
        m.cooldown = .ok b' ∧
      Changes b b' fun s' column => if s' = s then measure? b.layout s m column else none := by
  obtain ⟨hnodup, hlt⟩ := hseparated
  simp only [SegmentName.measureColumns, List.forall_mem_cons] at hlt
  obtain ⟨hhealth, hx, hy, hcooldown, -⟩ := hlt
  obtain ⟨b₁, h₁, hc₁⟩ := (Changes.refl b).exists_write hsize hs b.layout.health (by omega) m.health
  obtain ⟨b₂, h₂, hc₂⟩ := hc₁.exists_write hsize hs b.layout.position (by omega) m.x
  obtain ⟨b₃, h₃, hc₃⟩ := hc₂.exists_write hsize hs (b.layout.position + 1) (by omega) m.y
  obtain ⟨b₄, h₄, hc₄⟩ :=
    hc₃.exists_write hsize hs (s.cooldownColumn b.layout) (by omega) m.cooldown
  refine ⟨b₄, ?_, hc₄.congr ?_⟩
  · unfold writeReadings
    rw [h₁, ok_bind, hc₁.layout_eq, h₂, ok_bind, hc₂.layout_eq, Nat.add_assoc, h₃, ok_bind, h₄]
  · intro s' column
    unfold measure?
    simp [SegmentName.measureColumns] at hnodup
    grind

theorem exists_writeType (hsize : b.data.size = b.layout.length) (hs : s.IsIn b.layout)
    (hwidth : b.layout.numTypes ≤ s.width b.layout) (hcount : UnitType.count ≤ b.layout.numTypes)
    {unit : Nat} (hunit : unit < UnitType.count) :
    ∃ b', b.writeType (s.base b.layout) (s.width b.layout) unit = .ok b' ∧
      Changes b b' fun s' column =>
        if s' = s ∧ s.width b.layout - b.layout.numTypes ≤ column ∧ column < s.width b.layout then
          some (flag b.layout s (some unit) column)
        else none := by
  obtain ⟨b₁, h₁, hc₁⟩ := exists_zero hsize hs (Nat.sub_le (s.width b.layout) b.layout.numTypes)
    (Nat.le_refl _)
  have hcolumn : s.flagColumn b.layout unit < s.width b.layout := by
    unfold SegmentName.flagColumn
    omega
  obtain ⟨b₂, h₂, hc₂⟩ := hc₁.exists_write hsize hs _ hcolumn 1
  refine ⟨b₂, ?_, hc₂.congr ?_⟩
  · unfold writeType
    rw [subtract_of_le (by omega), ok_bind, Nat.add_sub_assoc hwidth, h₁, ok_bind,
      Layout.typeColumn_of_le (by omega), ok_bind]
    exact h₂
  · intro s' column
    unfold flag
    unfold SegmentName.flagColumn at *
    grind

theorem lastMeasures_concat (writes : List Write) (w : Write) (s : SegmentName) :
    lastMeasures (writes ++ [w]) s = (w.measures? s).getD (lastMeasures writes s) := by
  unfold lastMeasures
  rw [List.reverse_concat, List.findSome?_cons]
  cases w.measures? s <;> rfl

theorem lastUnit_concat (writes : List Write) (w : Write) (s : SegmentName) :
    lastUnit (writes ++ [w]) s = (w.unit? s).getD (lastUnit writes s) := by
  unfold lastUnit
  rw [List.reverse_concat, List.findSome?_cons]
  cases w.unit? s <;> rfl

theorem Records.of_changes {writes : List Write} {w : Write} (h : b.Records writes)
    (hc : Changes b b' new)
    (hnew : ∀ s : SegmentName, s.IsIn b.layout → ∀ column < s.width b.layout,
      (new s column).getD (feature b.layout s (lastMeasures writes s) (lastUnit writes s) column) =
        feature b.layout s ((w.measures? s).getD (lastMeasures writes s))
          ((w.unit? s).getD (lastUnit writes s)) column) : b'.Records (writes ++ [w]) := by
  constructor
  · rw [hc.size_eq, hc.layout_eq, h.size_eq]
  · intro s hs column hcolumn
    rw [hc.layout_eq] at hs hcolumn ⊢
    rw [hc.data_eq s hs column hcolumn, h.data_eq s hs column hcolumn, lastMeasures_concat,
      lastUnit_concat, ← hnew s hs column hcolumn]
    cases new s column <;> rfl

theorem measure?_eq_none {l : Layout} (hseparated : s.Separated l) (m : Measures) {column : Nat}
    (hcolumn : s.width l - l.numTypes ≤ column) : measure? l s m column = none := by
  have hlt := hseparated.2
  simp only [SegmentName.measureColumns, List.forall_mem_cons] at hlt
  unfold measure?
  rw [if_neg (by omega), if_neg (by omega), if_neg (by omega), if_neg (by omega)]

theorem map_feature_measureColumns {l : Layout} (hseparated : s.Separated l) (m : Measures)
    (unit : Option Nat) :
    (s.measureColumns l).map (feature l s m unit) = [m.health, m.x, m.y, m.cooldown] := by
  have hnodup := hseparated.1
  simp only [SegmentName.measureColumns, List.nodup_cons, List.mem_cons, not_or] at hnodup
  obtain ⟨⟨hhealth_x, hhealth_y, hhealth_cooldown, -⟩, ⟨-, hx_cooldown, -⟩, ⟨hy_cooldown, -⟩, -⟩ :=
    hnodup
  simp [SegmentName.measureColumns, feature, measure?, Ne.symm hhealth_x, Ne.symm hhealth_y,
    Ne.symm hhealth_cooldown, Ne.symm hx_cooldown, Ne.symm hy_cooldown]

theorem flag_eq_zero {l : Layout} (hcount : UnitType.count ≤ l.numTypes) (unit : Option Nat)
    {column : Nat} (hcolumn : column < s.width l - l.numTypes) : flag l s unit column = 0 := by
  have hne (unit : Nat) : s.flagColumn l unit ≠ column := by
    unfold SegmentName.flagColumn
    omega
  unfold flag
  cases unit with
  | none => rfl
  | some unit => simp [hne unit]

theorem feature_zero_none (l : Layout) (s : SegmentName) (column : Nat) :
    feature l s .zero none column = 0 := by
  have hflag : flag l s none column = 0 := rfl
  unfold feature measure?
  rw [hflag]
  split_ifs <;> rfl

theorem measure?_getD_feature (l : Layout) (s : SegmentName) (m m' : Measures) (unit : Option Nat)
    (column : Nat) :
    (measure? l s m column).getD (feature l s m' unit column) = feature l s m unit column := by
  unfold feature measure?
  split_ifs <;> rfl

section

variable {writes : List Write} (h : b.Records writes) (husable : b.layout.Usable)
include h

theorem Records.selfBase_eq : b.selfBase = .ok (SegmentName.own.base b.layout) := by
  unfold selfBase
  rw [h.size_eq, Layout.length, subtract_of_le (Nat.le_add_left ..)]
  exact congrArg Except.ok (Nat.add_sub_cancel ..)

theorem Records.measures (hs : s.IsIn b.layout) (hseparated : s.Separated b.layout) (m : Measures) :
    ∃ b', b.put (.measures s m) = .ok b' ∧ b'.layout = b.layout ∧
      b'.Records (writes ++ [.measures s m]) := by
  obtain ⟨b', hb', hc⟩ := exists_writeReadings h.size_eq hs hseparated m
  refine ⟨b', ?_, hc.layout_eq, h.of_changes hc ?_⟩
  · rw [← hb']
    cases s with
    | own => rw [put, setSelf, h.selfBase_eq, ok_bind]; rfl
    | row index => rfl
  · intro s' _ column _
    dsimp only [Write.measures?, Write.unit?]
    by_cases hs' : s' = s
    · subst hs'
      rw [if_pos rfl, if_pos rfl]
      exact measure?_getD_feature ..
    · rw [if_neg hs', if_neg (Ne.symm hs')]
      rfl

theorem Records.clear {row : Nat} (hrow : row < b.layout.otherRows) :
    ∃ b', b.put (.clear row) = .ok b' ∧ b'.layout = b.layout ∧
      b'.Records (writes ++ [.clear row]) := by
  have hs : (SegmentName.row row).IsIn b.layout := hrow
  obtain ⟨b', hb', hc⟩ := exists_zero h.size_eq hs (Nat.zero_le _) (Nat.le_refl _)
  refine ⟨b', ?_, hc.layout_eq, h.of_changes hc ?_⟩
  · have hnext : b.rowBase (row + 1) = b.rowBase row + b.layout.otherWidth := by
      unfold rowBase
      rw [Nat.add_mul, Nat.one_mul]
    rw [← hb', put, clearRow, hnext]
    rfl
  · intro s' _ column hcolumn
    dsimp only [Write.measures?, Write.unit?]
    by_cases hs' : s' = .row row
    · subst hs'
      rw [if_pos ⟨rfl, Nat.zero_le _, hcolumn⟩, if_pos rfl, if_pos rfl]
      exact (feature_zero_none ..).symm
    · rw [if_neg (by simp [hs']), if_neg (Ne.symm hs'), if_neg (Ne.symm hs')]
      rfl

include husable

theorem Records.raise (hs : s.IsIn b.layout) (hseparated : s.Separated b.layout) {unit : Nat}
    (hunit : unit < UnitType.count) :
    ∃ b', b.put (.raise s unit) = .ok b' ∧ b'.layout = b.layout ∧
      b'.Records (writes ++ [.raise s unit]) := by
  have hwidth := SegmentName.numTypes_le husable s
  obtain ⟨b', hb', hc⟩ := exists_writeType h.size_eq hs hwidth husable.count_le hunit
  refine ⟨b', ?_, hc.layout_eq, h.of_changes hc ?_⟩
  · rw [← hb']
    cases s with
    | own => rw [put, setSelfType, h.selfBase_eq, ok_bind]; rfl
    | row index => rfl
  · intro s' _ column hcolumn
    dsimp only [Write.measures?, Write.unit?]
    by_cases hs' : s' = s
    · subst hs'
      rw [if_pos rfl]
      unfold feature
      by_cases hblock : s'.width b.layout - b.layout.numTypes ≤ column
      · rw [if_pos ⟨rfl, hblock, hcolumn⟩, Option.getD_none, measure?_eq_none hseparated _ hblock]
        rfl
      · rw [if_neg (by omega), flag_eq_zero husable.count_le _ (by omega),
          flag_eq_zero husable.count_le _ (by omega)]
        rfl
    · rw [if_neg (by simp [hs']), if_neg (Ne.symm hs')]
      rfl

theorem Records.exists_put {w : Write} (hseparated : ∀ s : SegmentName, s.Separated b.layout)
    (hw : w.Fits b.layout) :
    ∃ b', b.put w = .ok b' ∧ b'.layout = b.layout ∧ b'.Records (writes ++ [w]) := by
  cases w with
  | measures s m => exact h.measures hw (hseparated s) m
  | raise s unit => exact h.raise husable hw.1 (hseparated s) hw.2
  | clear row => exact h.clear hw

end

theorem exists_ofLayout {l : Layout} (h : featureBytes * l.length < Nat.pow 2 63) :
    ∃ b, ofLayout l = .ok b := by
  unfold ofLayout requireAddressable
  rw [if_pos h]
  exact ⟨_, rfl⟩

theorem records_of_ofLayout {l : Layout} (h : ofLayout l = .ok b) :
    b.layout = l ∧ b.Records [] := by
  obtain ⟨-, h⟩ := unit_bind_eq_ok_iff.mp h
  obtain rfl := Except.ok.inj h
  refine ⟨rfl, Array.size_replicate, ?_⟩
  intro s hs column hcolumn
  have hlt := SegmentName.place_lt hs hcolumn
  rw [Array.getElem?_replicate, if_pos hlt]
  exact congrArg some (feature_zero_none ..).symm

theorem Records.exists_putAll {before writes : List Write} (h : b.Records before)
    (husable : b.layout.Usable) (hseparated : ∀ s : SegmentName, s.Separated b.layout)
    (hwrites : ∀ w ∈ writes, w.Fits b.layout) :
    ∃ b', b.putAll writes = .ok b' ∧ b'.layout = b.layout ∧ b'.Records (before ++ writes) := by
  induction writes generalizing b before with
  | nil =>
    rw [List.append_nil]
    exact ⟨b, rfl, rfl, h⟩
  | cons w writes ih =>
    rw [List.forall_mem_cons] at hwrites
    obtain ⟨b₁, hput, hlayout, h₁⟩ := h.exists_put husable hseparated hwrites.1
    rw [← hlayout] at husable hseparated hwrites
    obtain ⟨b₂, hputAll, hlayout₂, h₂⟩ := ih h₁ husable hseparated hwrites.2
    refine ⟨b₂, ?_, hlayout₂.trans hlayout, ?_⟩
    · unfold putAll at hputAll ⊢
      rw [List.foldlM_cons, hput, ok_bind, hputAll]
    · rw [List.append_cons]
      exact h₂

theorem lt_count_of_lastUnit {l : Layout} {writes : List Write} (h : ∀ w ∈ writes, w.Fits l)
    {unit : Nat} (hunit : lastUnit writes s = some unit) : unit < UnitType.count := by
  obtain ⟨w, hw, hsome⟩ := List.exists_of_findSome?_eq_some (Option.join_eq_some_iff.mp hunit)
  have hfits := h w (List.mem_reverse.mp hw)
  cases w with
  | measures s' m => cases hsome
  | raise s' unit' =>
    dsimp only [Write.unit?] at hsome
    split at hsome
    · cases hsome
      exact hfits.2
    · cases hsome
  | clear row =>
    dsimp only [Write.unit?] at hsome
    split at hsome <;> cases hsome

theorem Records.flag_eq {writes : List Write} (h : b.Records writes) (hs : s.IsIn b.layout)
    (hseparated : s.Separated b.layout) {column : Nat}
    (hblock : s.width b.layout - b.layout.numTypes ≤ column) (hcolumn : column < s.width b.layout) :
    b.data[s.base b.layout + column]? = some (flag b.layout s (lastUnit writes s) column) := by
  rw [h.data_eq s hs column hcolumn, feature, measure?_eq_none hseparated _ hblock]
  rfl

end Buffer

structure Reading.Shows (r : Reading) (m : Measures) (raised : Option Nat) : Prop where
  health_eq : r.health = m.health
  position_eq : r.position = ⟨m.x, m.y⟩
  cooldown_eq : r.cooldown = m.cooldown
  flag_eq : ∀ unit : UnitType, r.types.flag unit = if raised = some unit.index then 1 else 0

namespace SegmentName

variable {v : View} {s : SegmentName}

def features (v : View) : SegmentName → FeatureSegment
  | own => v.ownSegment
  | row index => v.rowSegment index

theorem size_features (hs : s.IsIn v.layout) :
    (s.features v).features.size = s.width v.layout := by
  cases s with
  | own => exact v.size_ownSegment
  | row index => exact View.size_rowSegment hs

theorem reading_of_reads (hs : s.IsIn v.layout) {r : Reading}
    (h : (s.features v).Reads v.layout (s.cooldownColumn v.layout) r) :
    s.reading v = .ok r := by
  cases s with
  | own => exact v.own_eq.trans (FeatureSegment.reading_eq_ok_iff.mpr h)
  | row index =>
    have hrow : v.row index = .ok { r with index } := (View.row_eq_ok_iff_reads hs).mpr ⟨rfl, h⟩
    rw [reading, hrow]
    rfl

theorem feature_features (hs : s.IsIn v.layout) {column : Nat} (hcolumn : column < s.width v.layout)
    {value : Float32} (h : v.data[s.base v.layout + column]? = some value) :
    (s.features v).feature column = .ok value := by
  have hsize := v.size_data
  have hextract : (s.features v).features[column]? = some value := by
    rw [← h]
    cases s with
    | own =>
      dsimp only [features, View.ownSegment, base, width] at *
      rw [Array.getElem?_extract]
      rw [if_pos (by omega)]
      congr 1
      omega
    | row index =>
      have := View.row_stop_le hs
      dsimp only [features, View.rowSegment, base, width] at *
      rw [Array.getElem?_extract]
      rw [if_pos (by rw [Nat.add_mul, Nat.one_mul] at *; omega)]
  unfold FeatureSegment.feature
  rw [hextract]

theorem feature_flagColumn {l : Layout} (hcount : UnitType.count ≤ l.numTypes)
    (hseparated : s.Separated l) (m : Measures) (raised : Option Nat) (unit : UnitType) :
    Buffer.feature l s m raised (s.flagColumn l unit.index) =
      if raised = some unit.index then 1 else 0 := by
  unfold Buffer.feature
  rw [Buffer.measure?_eq_none hseparated m (by unfold flagColumn; omega), Option.getD_none]
  unfold Buffer.flag
  cases raised with
  | none => rfl
  | some unit' => simp [flagColumn]

theorem exists_reading (hs : s.IsIn v.layout) (hseparated : s.Separated v.layout) {m : Measures}
    {raised : Option Nat} (h : ∀ column < s.width v.layout,
      v.data[s.base v.layout + column]? = some (Buffer.feature v.layout s m raised column)) :
    ∃ r, s.reading v = .ok r ∧ r.Shows m raised := by
  have husable := v.usable
  have hcount : UnitType.count ≤ s.width v.layout :=
    Nat.le_trans husable.count_le (numTypes_le husable s)
  have hlt := hseparated.2
  have hmeasures := Buffer.map_feature_measureColumns hseparated m raised
  simp only [measureColumns, List.forall_mem_cons] at hlt
  simp only [measureColumns, List.map_cons, List.map_nil, List.cons.injEq, and_true] at hmeasures
  obtain ⟨hhealth, hx, hy, hcooldown⟩ := hmeasures
  have hread {column : Nat} (hcolumn : column < s.width v.layout) {value : Float32}
      (hvalue : Buffer.feature v.layout s m raised column = value) :
      (s.features v).feature column = .ok value := by
    rw [← hvalue]
    exact feature_features hs hcolumn (h column hcolumn)
  have hflag (unit : UnitType) : (s.features v).typeFlag unit =
      .ok (if raised = some unit.index then 1 else 0) := by
    have := unit.index_lt_count
    unfold FeatureSegment.typeFlag
    rw [size_features hs, Layout.typeColumn_of_le hcount, ok_bind]
    apply hread (by omega)
    exact feature_flagColumn husable.count_le hseparated m raised unit
  obtain ⟨types, htypes⟩ : ∃ types, (s.features v).types = .ok types := by
    apply FeatureSegment.exists_types
    rwa [size_features hs]
  refine ⟨⟨m.health, ⟨m.x, m.y⟩, m.cooldown, types⟩, ?_, rfl, rfl, rfl, ?_⟩
  · apply reading_of_reads hs
    refine ⟨hread (by omega) hhealth, ?_, hread (by omega) hcooldown, htypes⟩
    unfold FeatureSegment.position
    rw [hread (by omega) hx, ok_bind, hread (by omega) hy]
    rfl
  · intro unit
    have htype := FeatureSegment.typeFlag_of_types htypes unit
    rw [hflag] at htype
    exact (Except.ok.inj htype).symm

end SegmentName

namespace Buffer

theorem exists_recording {l : Layout} (hl : l.validate = .ok ())
    (hseparated : ∀ s : SegmentName, s.Separated l)
    (hlength : featureBytes * l.length < Nat.pow 2 63) {writes : List Write}
    (hwrites : ∀ w ∈ writes, w.Fits l) :
    ∃ b b', ofLayout l = .ok b ∧ b.putAll writes = .ok b' ∧ b'.layout = l ∧ b'.Records writes ∧
      (∀ s : SegmentName, s.IsIn l →
        (∀ column, s.width l - l.numTypes ≤ column → column < s.width l →
          b'.data[s.base l + column]? = some (flag l s (lastUnit writes s) column)) ∧
        ∀ unit, lastUnit writes s = some unit →
          Layout.typeColumn (s.width l) unit = .ok (s.flagColumn l unit) ∧
            s.width l - l.numTypes ≤ s.flagColumn l unit ∧ s.flagColumn l unit < s.width l) ∧
      ∀ friends, ∃ v, View.ofData b'.data l friends = .ok v ∧
        ∀ s : SegmentName, s.IsIn l →
          ∃ r, s.reading v = .ok r ∧ r.Shows (lastMeasures writes s) (lastUnit writes s) := by
  have husable := Layout.validate_eq_ok_iff_usable.mp hl
  obtain ⟨b, hb⟩ := exists_ofLayout hlength
  obtain ⟨rfl, hempty⟩ := records_of_ofLayout hb
  obtain ⟨b', hputAll, hlayout, h⟩ := hempty.exists_putAll husable hseparated hwrites
  refine ⟨b, b', hb, hputAll, hlayout, h, ?_⟩
  rw [← hlayout] at hl hseparated hwrites husable ⊢
  constructor
  · intro s hs
    constructor
    · intro column hblock hcolumn
      exact h.flag_eq hs (hseparated s) hblock hcolumn
    · intro unit hunit
      have := lt_count_of_lastUnit hwrites hunit
      have := husable.count_le
      have := SegmentName.numTypes_le husable s
      refine ⟨Layout.typeColumn_of_le (by omega), ?_⟩
      unfold SegmentName.flagColumn
      omega
  · intro friends
    let v : View := ⟨b'.data, b'.layout, friends, hl, h.size_eq⟩
    refine ⟨v, View.ofData_eq_ok_iff.mpr ⟨rfl, rfl, rfl⟩, ?_⟩
    intro s hs
    exact SegmentName.exists_reading (v := v) hs (hseparated s) (h.data_eq s hs)

def wideLayout : Layout :=
  { Layout.standard 2 2 with numTypes := 8, otherWidth := 15, selfWidth := 12 }

def wideWrites : List Write :=
  [.measures .own ⟨1, 0.5, 0.5, 0⟩, .raise .own 0, .measures (.row 2) ⟨1, 0.25, -0.25, 2⟩,
    .raise (.row 2) 5, .raise (.row 1) 3, .clear 2, .raise (.row 2) 4, .raise (.row 1) 0]

theorem exists_recording_wide :
    (wideLayout.validate = .ok () ∧ (∀ s : SegmentName, s.Separated wideLayout) ∧
      ∀ w ∈ wideWrites, w.Fits wideLayout) ∧
    ∃ b b', ofLayout wideLayout = .ok b ∧ b.putAll wideWrites = .ok b' ∧ b'.Records wideWrites ∧
      ∃ v, View.ofData b'.data wideLayout 1 = .ok v ∧
        (∃ r, v.own = .ok r ∧ r.Shows ⟨1, 0.5, 0.5, 0⟩ (some 0)) ∧
        ∃ r, (SegmentName.row 2).reading v = .ok r ∧ r.Shows .zero (some 4) := by
  have hl : wideLayout.validate = .ok () := by rfl
  have hseparated : ∀ s : SegmentName, s.Separated wideLayout := by
    intro s
    cases s with
    | own => decide
    | row index => exact (by decide : (SegmentName.row 0).Separated wideLayout)
  have hwrites : ∀ w ∈ wideWrites, w.Fits wideLayout := by decide
  have hlength : featureBytes * wideLayout.length < Nat.pow 2 63 := by decide
  obtain ⟨b, b', hb, hputAll, -, hrecords, -, hviews⟩ :=
    exists_recording hl hseparated hlength hwrites
  obtain ⟨v, hv, hreadings⟩ := hviews 1
  exact ⟨⟨hl, hseparated, hwrites⟩, b, b', hb, hputAll, hrecords, v, hv, hreadings .own trivial,
    hreadings (.row 2) (by decide)⟩

/-- A vector that fewer than 2 ^ 64 features make up, which is still more than memory holds. -/
def vastLayout : Layout :=
  { Layout.standard 1 1 with otherRows := Nat.pow 2 60 }

/-- The x coordinates are in the last column that a 64-bit count can name. -/
def wrappedLayout : Layout :=
  { Layout.standard 2 2 with health := 2, position := Nat.pow 2 64 - 1 }

theorem not_exists_ofLayout_vast :
    (vastLayout.validate = .ok () ∧ (∀ s : SegmentName, s.Separated vastLayout) ∧
      vastLayout.boundedLength = .ok vastLayout.length ∧ ¬∃ b, ofLayout vastLayout = .ok b) ∧
    let l := wrappedLayout
    let y := (l.position + 1) % Nat.pow 2 64
    l.validateWith y = .ok () ∧
      (∀ s ∈ [SegmentName.own, .row 0, .row 1],
        [l.health, l.position, y, s.cooldownColumn l].Nodup ∧
          ∀ column ∈ [l.health, l.position, y, s.cooldownColumn l],
            column < s.width l - l.numTypes ∨ s.width l ≤ column) ∧
      ((SegmentName.row 1).base l + l.position) % Nat.pow 2 64 =
        (SegmentName.row 0).base l + (SegmentName.row 0).flagColumn l UnitType.hydralisk.index := by
  have hseparated : ∀ s : SegmentName, s.Separated vastLayout := by
    intro s
    cases s with
    | own => decide
    | row index => exact (by decide : (SegmentName.row 0).Separated vastLayout)
  refine ⟨⟨by rfl, hseparated, by rfl, ?_⟩, by rfl, by decide, by decide⟩
  rintro ⟨b, hb⟩
  cases hb

end Buffer

end BattleTree
