import BattleTree.Proofs.Except
import BattleTree.Terrain.Crossing

/-!
This module contains that every cell on a map has its place in the raster. So cells can be read and
written, and moves can be tested against them, without a look outside.
-/

namespace BattleTree

theorem exists_anyFrom {p : Int → Except Fault Bool} (h : ∀ i, ∃ b, p i = .ok b) (start : Int)
    (count : Nat) :
    ∃ b, anyFrom p start count = .ok b ∧
      (b = true ↔ ∃ i, start ≤ i ∧ i < start + count ∧ p i = .ok true) := by
  induction count generalizing start with
  | zero =>
    refine ⟨false, rfl, ?_⟩
    simp only [Bool.false_eq_true, false_iff, not_exists]
    omega
  | succ count ih =>
    obtain ⟨first, hfirst⟩ := h start
    rw [anyFrom, hfirst, ok_bind]
    cases first with
    | true => exact ⟨true, rfl, by simpa using ⟨start, by omega, by omega, hfirst⟩⟩
    | false =>
      obtain ⟨b, hb, hiff⟩ := ih (start + 1)
      refine ⟨b, hb, hiff.trans ?_⟩
      constructor
      · rintro ⟨i, hi, hlt, hp⟩
        exact ⟨i, by omega, by omega, hp⟩
      · rintro ⟨i, hi, hlt, hp⟩
        have hne : start ≠ i := by
          rintro rfl
          rw [hfirst] at hp
          cases hp
        exact ⟨i, by omega, by omega, hp⟩

namespace Terrain

theorem toInt_ofNat_le (extent : Nat) : (Int32.ofNat extent).toInt ≤ extent := by
  rw [Int32.toInt_ofNat', Int.bmod_def]
  unfold Int32.size
  split <;> omega

theorem covers_eq_true {extent : Nat} {coordinate : Int} (h : covers extent coordinate = true) :
    0 ≤ coordinate ∧ coordinate < extent := by
  have hle := toInt_ofNat_le extent
  unfold covers at h
  simp only [Bool.and_eq_true, decide_eq_true_eq] at h
  omega

theorem covers_of_lt {extent : Nat} {coordinate : Int} (hextent : extent < Nat.pow 2 31)
    (h₀ : 0 ≤ coordinate) (hlt : coordinate < extent) : covers extent coordinate = true := by
  unfold covers
  rw [Int32.toInt_ofNat_of_lt hextent]
  simp only [h₀, hlt, decide_true, Bool.and_self]

section

variable {t : Terrain} {c : Cell} {i : Nat}

theorem index?_lt (h : t.index? c = some i) : i < t.blocked.size := by
  rw [t.size_eq]
  unfold index? at h
  split at h
  · next hcovers =>
    rw [Bool.and_eq_true] at hcovers
    obtain ⟨hx, hxlt⟩ := covers_eq_true hcovers.1
    obtain ⟨hy, hylt⟩ := covers_eq_true hcovers.2
    obtain rfl := Option.some.inj h
    calc c.y.toNat * t.width + c.x.toNat
        < c.y.toNat * t.width + t.width := by omega
      _ = (c.y.toNat + 1) * t.width := by rw [Nat.add_mul, Nat.one_mul]
      _ ≤ t.height * t.width := Nat.mul_le_mul_right _ (by omega)
      _ = t.width * t.height := Nat.mul_comm ..
  · cases h

theorem isBlocked_of_index? (h : t.index? c = some i) :
    ∃ hi : i < t.blocked.size, t.isBlocked c = .ok t.blocked[i] := by
  refine ⟨index?_lt h, ?_⟩
  unfold isBlocked
  rw [h]
  dsimp only
  rw [Array.getElem?_eq_getElem (index?_lt h)]

theorem isBlocked_of_index?_eq_none (h : t.index? c = none) : t.isBlocked c = .ok true := by
  unfold isBlocked
  rw [h]

theorem setBlocked_of_index? (h : t.index? c = some i) (blocked : Bool) :
    ∃ t', t.setBlocked c blocked = .ok t' ∧ t'.width = t.width ∧ t'.height = t.height ∧
      t'.blocked = t.blocked.setIfInBounds i blocked := by
  unfold setBlocked
  rw [h]
  dsimp only
  rw [if_pos (index?_lt h)]
  exact ⟨_, rfl, rfl, rfl, rfl⟩

theorem setBlocked_of_index?_eq_none (h : t.index? c = none) (blocked : Bool) :
    t.setBlocked c blocked = .ok t := by
  unfold setBlocked
  rw [h]

end

theorem exists_isBlocked (t : Terrain) (c : Cell) : ∃ blocked, t.isBlocked c = .ok blocked := by
  cases hi : t.index? c with
  | some i =>
    obtain ⟨hlt, h⟩ := isBlocked_of_index? hi
    exact ⟨_, h⟩
  | none => exact ⟨true, isBlocked_of_index?_eq_none hi⟩

section

variable {α : Type} [Scalar α]

theorem stops_eq_true_iff {t : Terrain} {move : Segment α} {c : Cell} :
    t.stops move c = .ok true ↔ t.isBlocked c = .ok true ∧ c.touches move = true := by
  unfold stops
  obtain ⟨blocked, h⟩ := t.exists_isBlocked c
  rw [h, ok_bind]
  cases blocked <;> simp [pure, Except.pure]

theorem exists_stops (t : Terrain) (move : Segment α) (c : Cell) :
    ∃ b, t.stops move c = .ok b := by
  unfold stops
  obtain ⟨blocked, h⟩ := t.exists_isBlocked c
  rw [h, ok_bind]
  cases blocked <;> exact ⟨_, rfl⟩

theorem exists_crossing (t : Terrain) (move : Segment α) : ∃ b, t.crossing move = .ok b := by
  unfold crossing
  dsimp only
  split
  all_goals
    obtain ⟨b, hb, -⟩ := exists_anyFrom (fun _ => t.exists_stops move _) _ _
    exact ⟨b, hb⟩

theorem exists_blocks (t : Terrain) (start : Point α) (heading : Heading) (step : α) :
    ∃ b, t.blocks start heading step = .ok b :=
  t.exists_crossing _

end

end Terrain

end BattleTree
