import Mathlib.Algebra.Order.Group.Int
import Mathlib.Data.Prod.Lex

/-!
This module contains the order of single-precision numbers. What is a number has a rank, and numbers
compare as their ranks do. What is not a number has no rank and compares to nothing, not even to
itself.
-/

namespace BattleTree.Binary32

open Float.Model

abbrev Rank := Int ×ₗ Int ×ₗ Int

def rankParts? : UnpackedFloat → Option Rank
  | .notANumber => none
  | .infinity .negative => some (toLex (-2, toLex (0, 0)))
  | .finite .negative significand exponent _ =>
    some (toLex (-1, toLex (-exponent, -significand)))
  | .zero _ => some (toLex (0, toLex (0, 0)))
  | .finite .positive significand exponent _ => some (toLex (1, toLex (exponent, significand)))
  | .infinity .positive => some (toLex (2, toLex (0, 0)))

def rank? (x : Float32) : Option Rank :=
  rankParts? x.toModel.unpack

theorem cmp_toLex {α β : Type} [LinearOrder α] [LinearOrder β] (a₁ a₂ : α) (b₁ b₂ : β) :
    cmp (toLex (a₁, b₁)) (toLex (a₂, b₂)) = (cmp a₁ a₂).then (cmp b₁ b₂) := by
  rw [cmp_eq_compare, cmp_eq_compare, cmp_eq_compare, Prod.Lex.compare_def]
  rfl

theorem cmp_positive (e₁ e₂ : Int) (m₁ m₂ : Nat) :
    cmp (toLex ((1 : Int), toLex (e₁, (m₁ : Int)))) (toLex (1, toLex (e₂, (m₂ : Int)))) =
      (compare e₁ e₂).then (compare m₁ m₂) := by
  have hcast : StrictMono (Nat.cast : Nat → Int) := fun _ _ => Int.ofNat_lt.mpr
  rw [cmp_toLex, cmp_toLex, hcast.cmp_map_eq, cmp_eq_compare e₁, cmp_eq_compare m₁]
  rfl

theorem cmp_negative (e₁ e₂ : Int) (m₁ m₂ : Nat) :
    cmp (toLex (-1, toLex (-e₁, -(m₁ : Int)))) (toLex (-1, toLex (-e₂, -(m₂ : Int)))) =
      ((compare e₁ e₂).then (compare m₁ m₂)).swap := by
  have hneg : StrictAnti (Neg.neg : Int → Int) := fun _ _ => Int.neg_lt_neg
  have hcast : StrictMono (Nat.cast : Nat → Int) := fun _ _ => Int.ofNat_lt.mpr
  rw [cmp_toLex, cmp_toLex, hneg.cmp_map_eq e₁, hneg.cmp_map_eq (m₁ : Int), hcast.cmp_map_eq,
    ← cmp_swap e₁, ← cmp_swap m₁, Ordering.swap_then, cmp_eq_compare e₁, cmp_eq_compare m₁]
  rfl

theorem compare_eq_cmp_rank (a b : UnpackedFloat) :
    a.compare b = (rankParts? a).bind fun p => (rankParts? b).map fun q => cmp p q := by
  cases a with
  | notANumber => rfl
  | infinity s => cases s <;> rcases b with (_ | _) | _ | _ | ⟨_ | _⟩ <;> rfl
  | zero s => cases s <;> rcases b with (_ | _) | _ | _ | ⟨_ | _⟩ <;> rfl
  | finite s m₁ e₁ =>
    cases b with
    | notANumber => cases s <;> rfl
    | infinity t => cases s <;> cases t <;> rfl
    | zero t => cases s <;> rfl
    | finite t m₂ e₂ =>
      cases s with
      | negative =>
        cases t with
        | negative => exact congrArg some (cmp_negative e₁ e₂ m₁ m₂).symm
        | positive => rfl
      | positive =>
        cases t with
        | negative => rfl
        | positive => exact congrArg some (cmp_positive e₁ e₂ m₁ m₂).symm

theorem compare_eq_some_iff {a b : UnpackedFloat} {o : Ordering} :
    a.compare b = some o ↔
      ∃ p q, rankParts? a = some p ∧ rankParts? b = some q ∧ cmp p q = o := by
  rw [compare_eq_cmp_rank, Option.bind_eq_some_iff]
  apply exists_congr
  intro p
  rw [Option.map_eq_some_iff, exists_and_left]

variable {x y z : Float32}

theorem lt_iff_rank :
    x < y ↔ ∃ p q, rank? x = some p ∧ rank? y = some q ∧ p < q := by
  have hlt : x < y ↔ x.toModel.unpack.lt y.toModel.unpack = true := decide_eq_true_iff
  rw [hlt, UnpackedFloat.lt, beq_iff_eq, compare_eq_some_iff]
  apply exists₂_congr
  intro p q
  rw [cmp_eq_lt_iff]
  rfl

theorem le_iff_rank :
    x ≤ y ↔ ∃ p q, rank? x = some p ∧ rank? y = some q ∧ p ≤ q := by
  have hle : x ≤ y ↔ x.toModel.unpack.le y.toModel.unpack = true := decide_eq_true_iff
  have hcmp (p q : Rank) : (cmp p q).isLE = true ↔ p ≤ q := by
    rw [← Ordering.ne_gt_iff_isLE, cmp_eq_gt_iff, not_lt]
  rw [hle, UnpackedFloat.le, Option.any_eq_true]
  constructor
  · rintro ⟨o, ho, hisLE⟩
    obtain ⟨p, q, hp, hq, rfl⟩ := compare_eq_some_iff.mp ho
    exact ⟨p, q, hp, hq, (hcmp p q).mp hisLE⟩
  · rintro ⟨p, q, hp, hq, hpq⟩
    exact ⟨cmp p q, compare_eq_some_iff.mpr ⟨p, q, hp, hq, rfl⟩, (hcmp p q).mpr hpq⟩

theorem isNaN_eq_isNone : x.isNaN = (rank? x).isNone := by
  unfold rank? Float32.isNaN Float32.Model.isNaN
  rcases x.toModel.unpack with (_ | _) | _ | _ | ⟨_ | _⟩ <;> rfl

theorem exists_rank_of_not_isNaN (h : x.isNaN = false) : ∃ p, rank? x = some p := by
  rw [isNaN_eq_isNone, Option.isNone_eq_false_iff] at h
  exact Option.isSome_iff_exists.mp h

theorem not_isNaN_of_rank {p : Rank} (h : rank? x = some p) : x.isNaN = false := by
  rw [isNaN_eq_isNone, h]
  rfl

theorem not_isNaN_of_lt (h : x < y) : x.isNaN = false ∧ y.isNaN = false := by
  obtain ⟨p, q, hp, hq, -⟩ := lt_iff_rank.mp h
  exact ⟨not_isNaN_of_rank hp, not_isNaN_of_rank hq⟩

theorem not_isNaN_of_le (h : x ≤ y) : x.isNaN = false ∧ y.isNaN = false := by
  obtain ⟨p, q, hp, hq, -⟩ := le_iff_rank.mp h
  exact ⟨not_isNaN_of_rank hp, not_isNaN_of_rank hq⟩

theorem lt_irrefl (x : Float32) : ¬x < x := by
  intro h
  obtain ⟨p, q, hp, hq, hpq⟩ := lt_iff_rank.mp h
  obtain rfl := Option.some.inj (hp.symm.trans hq)
  exact hpq.false

theorem not_lt_of_lt (h : x < y) : ¬y < x := by
  intro h'
  obtain ⟨p, q, hp, hq, hpq⟩ := lt_iff_rank.mp h
  obtain ⟨q', p', hq', hp', hqp⟩ := lt_iff_rank.mp h'
  obtain rfl := Option.some.inj (hp.symm.trans hp')
  obtain rfl := Option.some.inj (hq.symm.trans hq')
  exact lt_asymm hpq hqp

theorem not_lt_iff_le (hx : x.isNaN = false) (hy : y.isNaN = false) : ¬x < y ↔ y ≤ x := by
  obtain ⟨p, hp⟩ := exists_rank_of_not_isNaN hx
  obtain ⟨q, hq⟩ := exists_rank_of_not_isNaN hy
  rw [lt_iff_rank, le_iff_rank, hp, hq]
  simp

theorem le_of_not_le (hx : x.isNaN = false) (hy : y.isNaN = false) (h : ¬x ≤ y) : y ≤ x := by
  obtain ⟨p, hp⟩ := exists_rank_of_not_isNaN hx
  obtain ⟨q, hq⟩ := exists_rank_of_not_isNaN hy
  refine le_iff_rank.mpr ⟨q, p, hq, hp, ?_⟩
  rcases le_total q p with hle | hle
  · exact hle
  · exact absurd (le_iff_rank.mpr ⟨p, q, hp, hq, hle⟩) h

theorem le_refl (h : x.isNaN = false) : x ≤ x := by
  obtain ⟨p, hp⟩ := exists_rank_of_not_isNaN h
  exact le_iff_rank.mpr ⟨p, p, hp, hp, Std.le_refl p⟩

theorem lt_of_lt_of_le (hxy : x < y) (hyz : y ≤ z) : x < z := by
  obtain ⟨p, q, hp, hq, hpq⟩ := lt_iff_rank.mp hxy
  obtain ⟨q', r, hq', hr, hqr⟩ := le_iff_rank.mp hyz
  obtain rfl := Option.some.inj (hq.symm.trans hq')
  exact lt_iff_rank.mpr ⟨p, r, hp, hr, hpq.trans_le hqr⟩

theorem lt_of_le_of_lt (hxy : x ≤ y) (hyz : y < z) : x < z := by
  obtain ⟨p, q, hp, hq, hpq⟩ := le_iff_rank.mp hxy
  obtain ⟨q', r, hq', hr, hqr⟩ := lt_iff_rank.mp hyz
  obtain rfl := Option.some.inj (hq.symm.trans hq')
  exact lt_iff_rank.mpr ⟨p, r, hp, hr, hpq.trans_lt hqr⟩

end BattleTree.Binary32
