import BattleTree.Proofs.Binary32.Order
import Mathlib.Algebra.Order.Monoid.Prod
import Mathlib.Algebra.Order.Ring.Int

/-!
This module contains the opposite and the magnitude of single-precision numbers. They only touch the
sign, so what is computed is packed without loss, and the ranks are those of opposites and
magnitudes.
-/

namespace BattleTree.Binary32

open Float.Model UnpackedFloat

inductive Canonical : UnpackedFloat → Prop where
  | notANumber : Canonical .notANumber
  | infinity (s : Sign) : Canonical (.infinity s)
  | zero (s : Sign) : Canonical (.zero s)
  | subnormal (s : Sign) {m : Nat} (hm : 0 < m) : m < 2 ^ 23 → Canonical (.finite s m (-149) hm)
  | normal (s : Sign) {m : Nat} {e : Int} (hm : 0 < m) : 2 ^ 23 ≤ m → m < 2 ^ 24 → -149 ≤ e →
      e ≤ 104 → Canonical (.finite s m e hm)

theorem toNat_implicit (m : BitVec 23) : (1#1 ++ m).toNat = 2 ^ 23 + m.toNat := by
  rw [BitVec.toNat_append, ← Nat.shiftLeft_add_eq_or_of_lt m.isLt]
  rfl

theorem canonical_unpack (x : Float32) : Canonical x.toModel.unpack := by
  unfold Float32.Model.unpack UnpackedFloat.unpack
  dsimp only
  by_cases hlast : @unpackExponent .binary32 x.toModel.toBits.toBitVec = -1#8
  · rw [if_pos hlast]
    split
    · exact .infinity _
    · exact .notANumber
  · rw [if_neg hlast]
    by_cases hfirst : @unpackExponent .binary32 x.toModel.toBits.toBitVec = 0#8
    · rw [if_pos hfirst]
      by_cases hzero : @unpackMantissa .binary32 x.toModel.toBits.toBitVec = 0#23
      · rw [dif_pos hzero]
        exact .zero _
      · rw [dif_neg hzero, hfirst]
        exact .subnormal _ _ (BitVec.isLt _)
    · rw [if_neg hfirst]
      have hexponent : (@unpackExponent .binary32 x.toModel.toBits.toBitVec).toNat < 256 :=
        BitVec.isLt _
      have hmantissa : (@unpackMantissa .binary32 x.toModel.toBits.toBitVec).toNat < 2 ^ 23 :=
        BitVec.isLt _
      have hpos : (@unpackExponent .binary32 x.toModel.toBits.toBitVec).toNat ≠ 0 :=
        fun h => hfirst (BitVec.eq_of_toNat_eq h)
      have hne : (@unpackExponent .binary32 x.toModel.toBits.toBitVec).toNat ≠ 255 :=
        fun h => hlast (BitVec.eq_of_toNat_eq h)
      have hbias : (Format.binary32.exponentBias : Int) = 127 := rfl
      have himplicit := toNat_implicit (@unpackMantissa .binary32 x.toModel.toBits.toBitVec)
      apply Canonical.normal <;> omega

theorem sign_packComponents (s : Sign) (e : BitVec 8) (m : BitVec 23) :
    Sign.ofBitVec (unpackSign (packComponents .binary32 s e m)) = s := by
  unfold unpackSign packComponents BitVec.extractLsb
  rw [BitVec.extractLsb'_append_eq_of_le (by decide),
    BitVec.extractLsb'_append_eq_of_le (by decide)]
  cases s <;> rfl

theorem finite_congr {s s' : Sign} {m m' : Nat} {e e' : Int} {hm : 0 < m} {hm' : 0 < m'}
    (hsign : s = s') (h : m = m') (he : e = e') : finite s m e hm = finite s' m' e' hm' := by
  subst hsign h he
  rfl

section

variable (s : Sign) {m : Nat} (hm : 0 < m)

theorem unpack_pack_subnormal (hlt : m < 2 ^ 23) :
    (Float32.Model.pack (.finite s m (-149) hm)).unpack = .finite s m (-149) hm := by
  have hlog : m.log2 < 23 := (Nat.log2_lt (Nat.ne_of_gt hm)).mpr hlt
  have hmantissa : (BitVec.ofNat 23 m).toNat = m := Nat.mod_eq_of_lt hlt
  have hne : unpackMantissa (packComponents .binary32 s 0#8 (BitVec.ofNat 23 m)) ≠ 0#23 := by
    rw [unpackMantissa_packComponents]
    intro h
    rw [h] at hmantissa
    exact absurd hmantissa (Nat.ne_of_lt hm)
  have hpack : UnpackedFloat.pack .binary32 (.finite s m (-149) hm) =
      packComponents .binary32 s 0#8 (BitVec.ofNat 23 m) := by
    unfold UnpackedFloat.pack
    dsimp only
    rw [if_neg (by decide), if_neg]
    change ¬m.log2 + 1 = 24
    omega
  change UnpackedFloat.unpack .binary32 (UnpackedFloat.pack .binary32 _) = _
  rw [hpack]
  unfold UnpackedFloat.unpack
  dsimp only
  rw [if_neg, if_pos unpackExponent_packComponents, dif_neg hne]
  · apply finite_congr (sign_packComponents s _ _)
    · rw [unpackMantissa_packComponents]
      exact hmantissa
    · rw [unpackExponent_packComponents]
      rfl
  · rw [unpackExponent_packComponents]
    decide

theorem unpack_pack_normal {e : Int} (hle : 2 ^ 23 ≤ m) (hlt : m < 2 ^ 24) (hmin : -149 ≤ e)
    (hmax : e ≤ 104) : (Float32.Model.pack (.finite s m e hm)).unpack = .finite s m e hm := by
  have hlog : m.log2 = 23 := by
    have hlower := (Nat.le_log2 (Nat.ne_of_gt hm)).mpr hle
    have hupper := (Nat.log2_lt (Nat.ne_of_gt hm)).mpr hlt
    omega
  have hbits : m.log2 + 1 = Format.binary32.mantissaBits := congrArg (· + 1) hlog
  have hbias : (e + Format.binary32.exponentBias +
      Format.binary32.mantissaBitsWithoutImplicit).toNat = (e + 150).toNat := by
    change (e + (127 : Nat) + (23 : Nat)).toNat = _
    omega
  have hexponent : (BitVec.ofNat 8 (e + 150).toNat).toNat = (e + 150).toNat :=
    Nat.mod_eq_of_lt (by omega)
  have hmantissa : (1#1 ++ BitVec.ofNat 23 m).toNat = m := by
    rw [toNat_implicit, BitVec.toNat_ofNat]
    omega
  have hlast : BitVec.ofNat 8 (e + 150).toNat ≠ -1#8 := by
    intro h
    have : (e + 150).toNat = 255 := hexponent.symm.trans (congrArg BitVec.toNat h)
    omega
  have hfirst : BitVec.ofNat 8 (e + 150).toNat ≠ 0#8 := by
    intro h
    have : (e + 150).toNat = 0 := hexponent.symm.trans (congrArg BitVec.toNat h)
    omega
  have hpack : UnpackedFloat.pack .binary32 (.finite s m e hm) =
      packComponents .binary32 s (BitVec.ofNat 8 (e + 150).toNat) (BitVec.ofNat 23 m) := by
    unfold UnpackedFloat.pack
    dsimp only
    rw [hbias, if_neg (by omega), if_pos hbits]
  change UnpackedFloat.unpack .binary32 (UnpackedFloat.pack .binary32 _) = _
  rw [hpack]
  unfold UnpackedFloat.unpack
  dsimp only
  rw [if_neg, if_neg]
  · apply finite_congr (sign_packComponents s _ _)
    · rw [unpackMantissa_packComponents]
      exact hmantissa
    · rw [unpackExponent_packComponents, hexponent]
      change ((e + 150).toNat : Int) - ((127 : Nat) + (23 : Nat)) = e
      omega
  · rw [unpackExponent_packComponents]
    exact hfirst
  · rw [unpackExponent_packComponents]
    exact hlast

end

theorem unpack_pack {u : UnpackedFloat} (h : Canonical u) : (Float32.Model.pack u).unpack = u := by
  cases h with
  | notANumber => rfl
  | infinity s => cases s <;> rfl
  | zero s => cases s <;> rfl
  | subnormal s hm hlt => exact unpack_pack_subnormal s hm hlt
  | normal s hm hle hlt hmin hmax => exact unpack_pack_normal s hm hle hlt hmin hmax

theorem Canonical.neg {u : UnpackedFloat} (h : Canonical u) : Canonical u.neg := by
  cases h with
  | notANumber => exact .notANumber
  | infinity s => exact .infinity _
  | zero s => exact .zero _
  | subnormal s hm hlt => exact .subnormal _ hm hlt
  | normal s hm hle hlt hmin hmax => exact .normal _ hm hle hlt hmin hmax

theorem Canonical.abs {u : UnpackedFloat} (h : Canonical u) : Canonical u.abs := by
  cases h with
  | notANumber => exact .notANumber
  | infinity s => exact .infinity _
  | zero s => exact .zero _
  | subnormal s hm hlt => exact .subnormal _ hm hlt
  | normal s hm hle hlt hmin hmax => exact .normal _ hm hle hlt hmin hmax

theorem rank_nonneg {c : Int} (hc : 0 < c) (r : Int ×ₗ Int) : (0 : Rank) ≤ toLex (c, r) :=
  Prod.Lex.le_iff.mpr (.inl hc)

theorem abs_rank {c : Int} (hc : 0 < c) (r : Int ×ₗ Int) :
    |(toLex (c, r) : Rank)| = toLex (c, r) ∧ |-(toLex (c, r) : Rank)| = toLex (c, r) := by
  have habs := abs_of_nonneg (rank_nonneg hc r)
  exact ⟨habs, (abs_neg _).trans habs⟩

theorem rankParts?_neg (u : UnpackedFloat) :
    rankParts? u.neg = (rankParts? u).map fun p => -p := by
  rcases u with (_ | _) | _ | _ | ⟨_ | _, m, e⟩
  case finite.negative => exact congrArg some (neg_neg _).symm
  all_goals rfl

theorem rankParts?_abs (u : UnpackedFloat) :
    rankParts? u.abs = (rankParts? u).map fun p => |p| := by
  rcases u with (_ | _) | _ | _ | ⟨_ | _, m, e⟩
  case infinity.negative => exact congrArg some (abs_rank (by decide) _).2.symm
  case infinity.positive => exact congrArg some (abs_rank (by decide) _).1.symm
  case notANumber => rfl
  case zero => exact congrArg some abs_zero.symm
  case finite.negative => exact congrArg some (abs_rank (by decide) _).2.symm
  case finite.positive => exact congrArg some (abs_rank (by decide) _).1.symm

variable {x y : Float32}

theorem rank?_neg (x : Float32) : rank? (-x) = (rank? x).map fun p => -p := by
  unfold rank?
  rw [← rankParts?_neg, ← unpack_pack (canonical_unpack x).neg]
  rfl

theorem rank?_abs (x : Float32) : rank? x.abs = (rank? x).map fun p => |p| := by
  unfold rank?
  rw [← rankParts?_abs, ← unpack_pack (canonical_unpack x).abs]
  rfl

/-! The order of opposites and magnitudes is that of an ordered group, as there is for ranks. -/

theorem neg_lt_iff : -x < y ↔ -y < x := by
  simp only [lt_iff_rank, rank?_neg, Option.map_eq_some_iff]
  constructor
  · rintro ⟨_, q, ⟨p, hp, rfl⟩, hq, hlt⟩
    exact ⟨-q, p, ⟨q, hq, rfl⟩, hp, neg_lt.mp hlt⟩
  · rintro ⟨_, p, ⟨q, hq, rfl⟩, hp, hlt⟩
    exact ⟨-p, q, ⟨p, hp, rfl⟩, hq, neg_lt.mp hlt⟩

theorem lt_neg_iff : x < -y ↔ y < -x := by
  simp only [lt_iff_rank, rank?_neg, Option.map_eq_some_iff]
  constructor
  · rintro ⟨p, _, hp, ⟨q, hq, rfl⟩, hlt⟩
    exact ⟨q, -p, hq, ⟨p, hp, rfl⟩, lt_neg.mp hlt⟩
  · rintro ⟨q, _, hq, ⟨p, hp, rfl⟩, hlt⟩
    exact ⟨p, -q, hp, ⟨q, hq, rfl⟩, lt_neg.mp hlt⟩

theorem neg_neg_lt_iff : -(-x) < y ↔ x < y := by
  simp only [lt_iff_rank, rank?_neg, Option.map_map, Function.comp_def, neg_neg, Option.map_id']

theorem abs_lt_iff : x.abs < y ↔ -y < x ∧ x < y := by
  simp only [lt_iff_rank, rank?_abs, rank?_neg, Option.map_eq_some_iff]
  constructor
  · rintro ⟨_, q, ⟨p, hp, rfl⟩, hq, hlt⟩
    obtain ⟨hlower, hupper⟩ := abs_lt.mp hlt
    exact ⟨⟨-q, p, ⟨q, hq, rfl⟩, hp, hlower⟩, ⟨p, q, hp, hq, hupper⟩⟩
  · rintro ⟨⟨_, p, ⟨q, hq, rfl⟩, hp, hlower⟩, ⟨p', q', hp', hq', hupper⟩⟩
    obtain rfl := Option.some.inj (hp.symm.trans hp')
    obtain rfl := Option.some.inj (hq.symm.trans hq')
    exact ⟨|p|, q, ⟨p, hp, rfl⟩, hq, abs_lt.mpr ⟨hlower, hupper⟩⟩

end BattleTree.Binary32
