import BattleTree.Geometry.Segment
import Mathlib.Algebra.Order.Field.Basic
import Mathlib.Algebra.Order.Field.Rat
import Mathlib.Order.Interval.Set.UnorderedInterval
import Mathlib.Tactic.FieldSimp
import Mathlib.Tactic.LinearCombination
import Mathlib.Tactic.Linarith
import Mathlib.Tactic.Ring

/-!
This module contains what the intersection test of segments decides in exact arithmetic: whether the
closed segments have a point in common, if the first one is longer than a point. Of a first segment
without a length it only says whether it is in the bounding box of the second one.
-/

namespace BattleTree

section

variable {a b t : Rat}

theorem mul_nonpos_of_balance (ht₀ : 0 ≤ t) (ht₁ : t ≤ 1) (h : (1 - t) * a + t * b = 0) :
    a * b ≤ 0 := by
  by_contra hpos
  have ha : 0 ≤ (1 - t) * (a * a) := mul_nonneg (by linarith) (mul_self_nonneg a)
  have hb : t * (a * b) = -((1 - t) * (a * a)) := by linear_combination a * h
  have ht : t = 0 := by nlinarith
  subst ht
  have ha : a = 0 := by linarith
  simp [ha] at hpos

theorem exists_balance (hne : a ≠ b) (h : a * b ≤ 0) :
    ∃ t, 0 ≤ t ∧ t ≤ 1 ∧ (1 - t) * a + t * b = 0 := by
  have hsub : a - b ≠ 0 := sub_ne_zero.mpr hne
  have hbalance : (1 - a / (a - b)) * a + a / (a - b) * b = 0 := by
    field_simp
    ring
  refine ⟨a / (a - b), ?_, ?_, hbalance⟩
  · rcases lt_or_gt_of_ne hne with hlt | hgt
    · exact div_nonneg_of_nonpos (by nlinarith) (by linarith)
    · exact div_nonneg (by nlinarith) (by linarith)
  · rcases lt_or_gt_of_ne hne with hlt | hgt
    · rw [div_le_one_of_neg (by linarith)]
      nlinarith
    · rw [div_le_one (by linarith)]
      nlinarith

theorem mem_uIcc_of_param (ht₀ : 0 ≤ t) (ht₁ : t ≤ 1) : a + t * (b - a) ∈ Set.uIcc a b := by
  rw [Set.mem_uIcc]
  rcases le_total a b with h | h
  · left
    constructor <;> nlinarith
  · right
    constructor <;> nlinarith

theorem param_bounds (hne : a ≠ b) (h : a + t * (b - a) ∈ Set.uIcc a b) : 0 ≤ t ∧ t ≤ 1 := by
  rw [Set.mem_uIcc] at h
  rcases lt_or_gt_of_ne hne with hlt | hgt
  · rcases h with h | h
    · constructor <;> nlinarith
    · constructor <;> linarith
  · rcases h with h | h
    · constructor <;> linarith
    · constructor <;> nlinarith

theorem exists_multiple {dx dy x y : Rat} (hd : dx ≠ 0 ∨ dy ≠ 0) (h : dx * y - dy * x = 0) :
    ∃ t, t * dx = x ∧ t * dy = y := by
  rcases hd with hd | hd
  · refine ⟨x / dx, div_mul_cancel₀ x hd, ?_⟩
    field_simp
    linear_combination -h
  · refine ⟨y / dy, ?_, div_mul_cancel₀ y hd⟩
    field_simp
    linear_combination h

end

namespace Scalar

variable (x y : Rat)

theorem le_rat : le x y = decide (x ≤ y) := rfl

theorem lt_rat : lt x y = decide (x < y) := rfl

theorem eq_rat : eq x y = decide (x = y) := rfl

theorem zero_rat : (zero : Rat) = 0 := rfl

theorem ofInt_rat (i : Int) : (ofInt i : Rat) = i := rfl

theorem min_rat : min x y = Min.min x y := by
  unfold min
  simp only [le_rat, decide_eq_true_eq, le_refl, if_true, min_def]

theorem max_rat : max x y = Max.max x y := by
  unfold max
  simp only [le_rat, decide_eq_true_eq, le_refl, if_true, max_comm x, max_def]

end Scalar

namespace Point

variable (o a b p : Point Rat)

theorem cross_rat : cross o a b = (a.x - o.x) * (b.y - o.y) - (a.y - o.y) * (b.x - o.x) := by
  rfl

theorem within_iff :
    within a b p = true ↔ p.x ∈ Set.uIcc a.x b.x ∧ p.y ∈ Set.uIcc a.y b.y := by
  unfold within
  simp only [Scalar.min_rat, Scalar.max_rat, Scalar.le_rat, Bool.and_eq_true, decide_eq_true_eq]
  rfl

end Point

namespace Segment

def along (s : Segment Rat) (t : Rat) : Point Rat :=
  ⟨s.start.x + t * (s.finish.x - s.start.x), s.start.y + t * (s.finish.y - s.start.y)⟩

def Has (s : Segment Rat) (p : Point Rat) : Prop :=
  ∃ t, 0 ≤ t ∧ t ≤ 1 ∧ s.along t = p

def Meets (s s' : Segment Rat) : Prop :=
  ∃ p, s.Has p ∧ s'.Has p

def reverse (s : Segment Rat) : Segment Rat :=
  ⟨s.finish, s.start⟩

variable {s s' : Segment Rat} {p : Point Rat}

theorem along_zero (s : Segment Rat) : s.along 0 = s.start := by
  simp [along]

theorem along_one (s : Segment Rat) : s.along 1 = s.finish := by
  simp [along]

theorem has_start (s : Segment Rat) : s.Has s.start := by
  exact ⟨0, le_rfl, zero_le_one, along_zero s⟩

theorem has_finish (s : Segment Rat) : s.Has s.finish := by
  exact ⟨1, zero_le_one, le_rfl, along_one s⟩

theorem Meets.symm (h : s.Meets s') : s'.Meets s := by
  obtain ⟨p, hp, hp'⟩ := h
  exact ⟨p, hp', hp⟩

theorem cross_along (o a : Point Rat) (s : Segment Rat) (t : Rat) :
    Point.cross o a (s.along t) =
      (1 - t) * Point.cross o a s.start + t * Point.cross o a s.finish := by
  simp only [Point.cross_rat, along]
  ring

theorem cross_along_self (s : Segment Rat) (t : Rat) :
    Point.cross s.start s.finish (s.along t) = 0 := by
  simp only [Point.cross_rat, along]
  ring

theorem coordinate_ne (hs : s.start ≠ s.finish) :
    s.start.x ≠ s.finish.x ∨ s.start.y ≠ s.finish.y := by
  by_contra h
  rw [not_or, not_not, not_not] at h
  exact hs (congrArg₂ Point.mk h.1 h.2)

theorem exists_along_of_cross_eq_zero (hs : s.start ≠ s.finish)
    (h : Point.cross s.start s.finish p = 0) : ∃ t, s.along t = p := by
  have hd : s.finish.x - s.start.x ≠ 0 ∨ s.finish.y - s.start.y ≠ 0 := by
    apply (coordinate_ne hs).imp <;> exact fun hne => sub_ne_zero.mpr hne.symm
  rw [Point.cross_rat] at h
  obtain ⟨t, hx, hy⟩ := exists_multiple hd h
  exact ⟨t, congrArg₂ Point.mk (by linear_combination hx) (by linear_combination hy)⟩

theorem bounds_of_within (hs : s.start ≠ s.finish) {t : Rat}
    (h : Point.within s.start s.finish (s.along t) = true) : 0 ≤ t ∧ t ≤ 1 := by
  obtain ⟨hx, hy⟩ := (Point.within_iff ..).mp h
  rcases coordinate_ne hs with hne | hne
  · exact param_bounds hne hx
  · exact param_bounds hne hy

theorem within_of_has (h : s.Has p) : Point.within s.start s.finish p = true := by
  obtain ⟨t, ht₀, ht₁, rfl⟩ := h
  rw [Point.within_iff]
  exact ⟨mem_uIcc_of_param ht₀ ht₁, mem_uIcc_of_param ht₀ ht₁⟩

theorem within_point_iff (hs : s.start = s.finish) :
    Point.within s.start s.finish p = true ↔ s.start = p := by
  rw [Point.within_iff, ← hs, Set.uIcc_self, Set.uIcc_self]
  constructor
  · rintro ⟨hx, hy⟩
    exact congrArg₂ Point.mk hx.symm hy.symm
  · rintro rfl
    exact ⟨rfl, rfl⟩

theorem has_iff :
    s.Has p ↔ Point.cross s.start s.finish p = 0 ∧ Point.within s.start s.finish p = true := by
  constructor
  · intro h
    refine ⟨?_, within_of_has h⟩
    obtain ⟨t, -, -, rfl⟩ := h
    exact cross_along_self s t
  · rintro ⟨hline, hbox⟩
    by_cases hs : s.start = s.finish
    · rw [within_point_iff hs] at hbox
      rw [← hbox]
      exact has_start s
    · obtain ⟨t, rfl⟩ := exists_along_of_cross_eq_zero hs hline
      obtain ⟨ht₀, ht₁⟩ := bounds_of_within hs hbox
      exact ⟨t, ht₀, ht₁, rfl⟩

theorem Meets.cross_mul_nonpos (h : s.Meets s') :
    Point.cross s.start s.finish s'.start * Point.cross s.start s.finish s'.finish ≤ 0 := by
  obtain ⟨p, hp, t, ht₀, ht₁, rfl⟩ := h
  apply mul_nonpos_of_balance ht₀ ht₁
  rw [← cross_along]
  exact (has_iff.mp hp).1

theorem meets_of_cross_mul_nonpos
    (hne : Point.cross s.start s.finish s'.start ≠ Point.cross s.start s.finish s'.finish)
    (h : Point.cross s.start s.finish s'.start * Point.cross s.start s.finish s'.finish ≤ 0)
    (h' : Point.cross s'.start s'.finish s.start * Point.cross s'.start s'.finish s.finish ≤ 0) :
    s.Meets s' := by
  -- The differences of the signed areas are the same for both segments: the lines are not parallel.
  have hne' : Point.cross s'.start s'.finish s.start ≠ Point.cross s'.start s'.finish s.finish := by
    intro heq
    apply hne
    simp only [Point.cross_rat] at heq ⊢
    linear_combination -heq
  obtain ⟨t, ht₀, ht₁, ht⟩ := exists_balance hne h
  obtain ⟨r, hr₀, hr₁, hr⟩ := exists_balance hne' h'
  refine ⟨s.along r, ⟨r, hr₀, hr₁, rfl⟩, t, ht₀, ht₁, ?_⟩
  have hsub := sub_ne_zero.mpr hne
  simp only [Point.cross_rat] at hsub ht hr
  apply congrArg₂ Point.mk
  · apply mul_left_cancel₀ hsub
    linear_combination -(s'.finish.x - s'.start.x) * ht - (s.finish.x - s.start.x) * hr
  · apply mul_left_cancel₀ hsub
    linear_combination -(s'.finish.y - s'.start.y) * ht - (s.finish.y - s.start.y) * hr

theorem along_inj (hs : s.start ≠ s.finish) {t r : Rat} (h : s.along t = s.along r) : t = r := by
  obtain ⟨hx, hy⟩ := (Point.mk.injEq ..).mp h
  rcases coordinate_ne hs with hne | hne
  · exact mul_right_cancel₀ (sub_ne_zero.mpr hne.symm) (add_left_cancel hx)
  · exact mul_right_cancel₀ (sub_ne_zero.mpr hne.symm) (add_left_cancel hy)

theorem along_of_ends {t₀ t₁ : Rat} (hstart : s.along t₀ = s'.start)
    (hfinish : s.along t₁ = s'.finish) (t : Rat) :
    s'.along t = s.along ((1 - t) * t₀ + t * t₁) := by
  unfold along
  rw [← hstart, ← hfinish]
  unfold along
  apply congrArg₂ Point.mk <;> ring

theorem exists_end_of_collinear (hs : s.start ≠ s.finish) (h : s.Meets s')
    (hstart : Point.cross s.start s.finish s'.start = 0)
    (hfinish : Point.cross s.start s.finish s'.finish = 0) :
    s.Has s'.start ∨ s.Has s'.finish ∨ s'.Has s.start := by
  obtain ⟨t₀, hstart⟩ := exists_along_of_cross_eq_zero hs hstart
  obtain ⟨t₁, hfinish⟩ := exists_along_of_cross_eq_zero hs hfinish
  have halong := along_of_ends hstart hfinish
  obtain ⟨p, ⟨t, ht₀, ht₁, rfl⟩, r, hr₀, hr₁, hr⟩ := h
  have ht : (1 - r) * t₀ + r * t₁ = t := by
    rw [halong] at hr
    exact along_inj hs hr
  by_cases h₀ : 0 ≤ t₀ ∧ t₀ ≤ 1
  · exact .inl ⟨t₀, h₀.1, h₀.2, hstart⟩
  by_cases h₁ : 0 ≤ t₁ ∧ t₁ ≤ 1
  · exact .inr (.inl ⟨t₁, h₁.1, h₁.2, hfinish⟩)
  -- Neither end of the second segment is on the first one, so they are on its two sides.
  have hbetween : t ∈ Set.uIcc t₀ t₁ := by
    rw [← ht, show (1 - r) * t₀ + r * t₁ = t₀ + r * (t₁ - t₀) by ring]
    exact mem_uIcc_of_param hr₀ hr₁
  have hsides : t₀ < 0 ∧ 1 < t₁ ∨ 1 < t₀ ∧ t₁ < 0 := by
    rw [Set.mem_uIcc] at hbetween
    grind
  obtain ⟨r', hr₀', hr₁', hr'⟩ : ∃ r', 0 ≤ r' ∧ r' ≤ 1 ∧ (1 - r') * t₀ + r' * t₁ = 0 := by
    rcases hsides with ⟨h₀, h₁⟩ | ⟨h₀, h₁⟩
    · exact exists_balance (by linarith) (by nlinarith)
    · exact exists_balance (by linarith) (by nlinarith)
  refine .inr (.inr ⟨r', hr₀', hr₁', ?_⟩)
  rw [halong, hr', along_zero]

theorem intersects_rat (s s' : Segment Rat) :
    s.intersects s' = true ↔
      if Point.cross s.start s.finish s'.start = 0 ∧ Point.cross s.start s.finish s'.finish = 0 then
        Point.within s.start s.finish s'.start = true ∨
          Point.within s.start s.finish s'.finish = true ∨
          Point.within s'.start s'.finish s.start = true ∨
          Point.within s'.start s'.finish s.finish = true
      else
        Point.cross s.start s.finish s'.start * Point.cross s.start s.finish s'.finish ≤ 0 ∧
          Point.cross s'.start s'.finish s.start * Point.cross s'.start s'.finish s.finish ≤ 0 := by
  unfold intersects
  simp only [Scalar.eq_rat, Scalar.zero_rat, Scalar.le_rat, Bool.and_eq_true, decide_eq_true_eq]
  split
  · simp only [Bool.or_eq_true, or_assoc]
  · simp only [Bool.and_eq_true, decide_eq_true_eq]

theorem cross_eq_zero_of_collinear (hs : s.start ≠ s.finish)
    (hstart : Point.cross s.start s.finish s'.start = 0)
    (hfinish : Point.cross s.start s.finish s'.finish = 0) (t : Rat) :
    Point.cross s'.start s'.finish (s.along t) = 0 := by
  obtain ⟨t₀, hstart⟩ := exists_along_of_cross_eq_zero hs hstart
  obtain ⟨t₁, hfinish⟩ := exists_along_of_cross_eq_zero hs hfinish
  rw [← hstart, ← hfinish]
  simp only [Point.cross_rat, along]
  ring

theorem intersects_iff_meets (hs : s.start ≠ s.finish) : s.intersects s' = true ↔ s.Meets s' := by
  rw [intersects_rat]
  split
  · next hline =>
    obtain ⟨hstart, hfinish⟩ := hline
    have hcross := cross_eq_zero_of_collinear hs hstart hfinish
    constructor
    · rintro (h | h | h | h)
      · exact ⟨_, has_iff.mpr ⟨hstart, h⟩, has_start s'⟩
      · exact ⟨_, has_iff.mpr ⟨hfinish, h⟩, has_finish s'⟩
      · have hstart' := hcross 0
        rw [along_zero] at hstart'
        exact ⟨_, has_start s, has_iff.mpr ⟨hstart', h⟩⟩
      · have hfinish' := hcross 1
        rw [along_one] at hfinish'
        exact ⟨_, has_finish s, has_iff.mpr ⟨hfinish', h⟩⟩
    · intro h
      rcases exists_end_of_collinear hs h hstart hfinish with h | h | h
      · exact .inl (within_of_has h)
      · exact .inr (.inl (within_of_has h))
      · exact .inr (.inr (.inl (within_of_has h)))
  · next hline =>
    constructor
    · rintro ⟨h, h'⟩
      apply meets_of_cross_mul_nonpos _ h h'
      intro heq
      rw [← heq] at h hline
      have hzero := mul_self_eq_zero.mp (h.antisymm (mul_self_nonneg _))
      exact hline ⟨hzero, hzero⟩
    · intro h
      exact ⟨h.cross_mul_nonpos, h.symm.cross_mul_nonpos⟩

theorem intersects_point_iff (hs : s.start = s.finish) :
    s.intersects s' = true ↔ Point.within s'.start s'.finish s.start = true := by
  have hcross (p : Point Rat) : Point.cross s.start s.finish p = 0 := by
    rw [Point.cross_rat, hs]
    ring
  rw [intersects_rat, if_pos ⟨hcross _, hcross _⟩, within_point_iff hs, within_point_iff hs, ← hs]
  constructor
  · rintro (h | h | h | h)
    · rw [h]
      exact within_of_has (has_start s')
    · rw [h]
      exact within_of_has (has_finish s')
    · exact h
    · exact h
  · intro h
    exact .inr (.inr (.inl h))

theorem start_eq_of_has (hs : s.start = s.finish) (h : s.Has p) : s.start = p := by
  exact (within_point_iff hs).mp (within_of_has h)

theorem intersects_of_meets (h : s.Meets s') : s.intersects s' = true := by
  by_cases hs : s.start = s.finish
  · obtain ⟨p, hp, hp'⟩ := h
    rw [intersects_point_iff hs, start_eq_of_has hs hp]
    exact within_of_has hp'
  · exact (intersects_iff_meets hs).mpr h

theorem has_reverse : s.reverse.Has p ↔ s.Has p := by
  have hreverse {s : Segment Rat} (h : s.Has p) : s.reverse.Has p := by
    obtain ⟨t, ht₀, ht₁, rfl⟩ := h
    refine ⟨1 - t, by linarith, by linarith, ?_⟩
    unfold along reverse
    apply congrArg₂ Point.mk <;> ring
  exact ⟨fun h => hreverse h, fun h => hreverse h⟩

theorem intersects_reverse_left (s s' : Segment Rat) :
    s.reverse.intersects s' = s.intersects s' := by
  rw [Bool.eq_iff_iff]
  by_cases hs : s.start = s.finish
  · have hs' : s.reverse.start = s.reverse.finish := hs.symm
    rw [intersects_point_iff hs, intersects_point_iff hs']
    unfold reverse
    rw [hs]
  · have hs' : s.reverse.start ≠ s.reverse.finish := Ne.symm hs
    rw [intersects_iff_meets hs, intersects_iff_meets hs']
    unfold Meets
    simp only [has_reverse]

theorem intersects_reverse_right (s s' : Segment Rat) :
    s.intersects s'.reverse = s.intersects s' := by
  rw [Bool.eq_iff_iff]
  by_cases hs : s.start = s.finish
  · rw [intersects_point_iff hs, intersects_point_iff hs]
    simp only [Point.within_iff, reverse, Set.uIcc_comm]
  · rw [intersects_iff_meets hs, intersects_iff_meets hs]
    unfold Meets
    simp only [has_reverse]

theorem intersects_comm (h : s.start = s.finish ↔ s'.start = s'.finish) :
    s'.intersects s = s.intersects s' := by
  rw [Bool.eq_iff_iff]
  by_cases hs : s.start = s.finish
  · have hs' := h.mp hs
    rw [intersects_point_iff hs, intersects_point_iff hs', within_point_iff hs,
      within_point_iff hs']
    exact eq_comm
  · have hs' := mt h.mpr hs
    rw [intersects_iff_meets hs, intersects_iff_meets hs']
    exact ⟨Meets.symm, Meets.symm⟩

theorem intersects_spec (s s' : Segment Rat) :
    (s.Meets s' → s.intersects s' = true) ∧
    (s.start ≠ s.finish → (s.intersects s' = true ↔ s.Meets s')) ∧
    (s.start = s.finish → (s.intersects s' = true ↔
      s.start.x ∈ Set.uIcc s'.start.x s'.finish.x ∧
        s.start.y ∈ Set.uIcc s'.start.y s'.finish.y)) ∧
    s.reverse.intersects s' = s.intersects s' ∧ s.intersects s'.reverse = s.intersects s' ∧
    ((s.start = s.finish ↔ s'.start = s'.finish) → s'.intersects s = s.intersects s') := by
  refine ⟨intersects_of_meets, intersects_iff_meets, ?_, intersects_reverse_left s s',
    intersects_reverse_right s s', intersects_comm⟩
  intro hs
  rw [intersects_point_iff hs, Point.within_iff]

theorem intersects_spec_touching :
    let s : Segment Rat := ⟨⟨0, 0⟩, ⟨1, 1⟩⟩
    let s' : Segment Rat := ⟨⟨1, 1⟩, ⟨3, 3⟩⟩
    let shared : Segment Rat := ⟨⟨1, 1⟩, ⟨1, 1⟩⟩
    s.start ≠ s.finish ∧ s'.start ≠ s'.finish ∧ shared.start = shared.finish ∧
      s.Meets s' ∧ s.intersects s' = true ∧ s'.intersects s = true ∧
      s.reverse.intersects s' = true ∧ s.intersects s'.reverse = true ∧
      shared.intersects s' = true := by
  intro s s' shared
  have hs : s.start ≠ s.finish := by decide +kernel
  have hs' : s'.start ≠ s'.finish := by decide +kernel
  have hmeets : s.Meets s' := ⟨s.finish, has_finish s, has_start s'⟩
  obtain ⟨-, hiff, -, hleft, hright, hcomm⟩ := intersects_spec s s'
  obtain ⟨-, -, hbox, -⟩ := intersects_spec shared s'
  have htrue := (hiff hs).mpr hmeets
  refine ⟨hs, hs', rfl, hmeets, htrue, ?_, ?_, ?_, ?_⟩
  · exact (hcomm (iff_of_false hs hs')).trans htrue
  · exact hleft.trans htrue
  · exact hright.trans htrue
  · exact (hbox rfl).mpr ⟨Set.left_mem_uIcc, Set.left_mem_uIcc⟩

theorem intersects_of_not_meets :
    let point : Segment Rat := ⟨⟨0, 1⟩, ⟨0, 1⟩⟩
    let diagonal : Segment Rat := ⟨⟨0, 0⟩, ⟨2, 2⟩⟩
    let singlePoint : Segment Float32 := ⟨⟨0, 1⟩, ⟨0, 1⟩⟩
    let singleDiagonal : Segment Float32 := ⟨⟨0, 0⟩, ⟨2, 2⟩⟩
    ¬point.Meets diagonal ∧ point.intersects diagonal = true ∧ diagonal.intersects point = false ∧
      singlePoint.intersects singleDiagonal = true ∧
      singleDiagonal.intersects singlePoint = false := by
  -- A point beside a diagonal is taken for one on it, but not if the diagonal comes first. Single
  -- precision is exact on these coordinates.
  intro point diagonal singlePoint singleDiagonal
  have hfalse : diagonal.intersects point = false := by decide +kernel
  refine ⟨?_, by decide +kernel, hfalse, by decide +kernel, by decide +kernel⟩
  intro h
  rw [intersects_of_meets h.symm] at hfalse
  cases hfalse

end Segment

end BattleTree
