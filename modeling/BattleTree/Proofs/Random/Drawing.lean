import BattleTree.Proofs.Graph.Exploration
import BattleTree.Proofs.Random.Mixing
import Mathlib.Algebra.Order.Floor.Div
import Mathlib.Data.Set.Card
import Mathlib.Order.Interval.Finset.Nat

/-!
This module contains how evenly values are drawn from random streams: a bounded draw splits the high
halves of the words into runs, one for each value, whose lengths differ by at most one.
-/

namespace BattleTree

namespace Stream

section

variable {size bound value high : Nat}

theorem mul_div_eq_iff (hsize : 0 < size) (hbound : 0 < bound) :
    high * bound / size = value ↔
      value * size ⌈/⌉ bound ≤ high ∧ high < (value + 1) * size ⌈/⌉ bound := by
  rw [Nat.div_eq_iff hsize, ← not_le, ceilDiv_le_iff_le_mul hbound, ceilDiv_le_iff_le_mul hbound,
    Nat.mul_comm bound high, Nat.add_one_mul]
  omega

/-- One of the two counts next to the exact share of a value. -/
def Fair (size bound count : Nat) : Prop :=
  count = size / bound ∨ count = size ⌈/⌉ bound

theorem fair_run (size value : Nat) (hbound : 0 < bound) :
    Fair size bound ((value + 1) * size ⌈/⌉ bound - value * size ⌈/⌉ bound) := by
  have hstart : value * size ≤ bound * (value * size ⌈/⌉ bound) := le_smul_ceilDiv hbound
  have hstop : (value + 1) * size ≤ bound * ((value + 1) * size ⌈/⌉ bound) :=
    le_smul_ceilDiv hbound
  have hshare : size ≤ bound * (size ⌈/⌉ bound) := le_smul_ceilDiv hbound
  have hfloor : bound * (size / bound) ≤ size := Nat.mul_div_le size bound
  have hceil : size ⌈/⌉ bound ≤ size / bound + 1 := by
    rw [ceilDiv_le_iff_le_mul hbound]
    exact Nat.le_of_lt (Nat.lt_mul_div_succ size hbound)
  have hmost : (value + 1) * size ⌈/⌉ bound ≤ value * size ⌈/⌉ bound + size ⌈/⌉ bound := by
    rw [ceilDiv_le_iff_le_mul hbound, Nat.mul_add, Nat.add_one_mul]
    exact Nat.add_le_add hstart hshare
  rw [Nat.add_one_mul] at hstop hmost ⊢
  have hfits : size / bound ≤ (value * size + size) ⌈/⌉ bound := by
    apply Nat.le_of_mul_le_mul_left _ hbound
    omega
  have hleast : value * size ⌈/⌉ bound ≤ (value * size + size) ⌈/⌉ bound - size / bound := by
    rw [ceilDiv_le_iff_le_mul hbound, Nat.mul_sub]
    omega
  unfold Fair
  omega

end

def high (word : UInt64) : UInt32 :=
  (word >>> 32).toUInt32

def portion (bound high : UInt32) : UInt32 :=
  scale (high.toUInt64 <<< 32) bound

theorem toNat_high (word : UInt64) : (high word).toNat = word.toNat / UInt32.size := by
  have hword := word.toNat_lt
  unfold high UInt32.size
  rw [UInt64.toNat_toUInt32, UInt64.toNat_shiftRight, Nat.shiftRight_eq_div_pow]
  simp
  omega

theorem toNat_portion (bound high : UInt32) :
    (portion bound high).toNat = high.toNat * bound.toNat / UInt32.size := by
  have hhigh := high.toNat_lt
  have hword : (high.toUInt64 <<< 32).toNat = high.toNat * UInt32.size := by
    unfold UInt32.size
    simp [Nat.shiftLeft_eq]
    omega
  rw [portion, toNat_scale, hword, Nat.mul_div_cancel _ (by decide)]

theorem scale_eq_portion (word : UInt64) (bound : UInt32) :
    scale word bound = portion bound (high word) := by
  rw [← UInt32.toNat_inj, toNat_scale, toNat_portion, toNat_high]

theorem portion_mono (bound : UInt32) {high high' : UInt32} (h : high ≤ high') :
    portion bound high ≤ portion bound high' := by
  rw [UInt32.le_iff_toNat_le] at h ⊢
  rw [toNat_portion, toNat_portion]
  exact Nat.div_le_div_right (Nat.mul_le_mul_right _ h)

theorem portion_lt {bound : UInt32} (h : 0 < bound) (high : UInt32) : portion bound high < bound :=
  UInt32.lt_iff_toNat_lt.mpr (toNat_scale_lt _ (UInt32.lt_iff_toNat_lt.mp h))

theorem image_portion {bound value : UInt32} (h : value < bound) :
    UInt32.toNat '' {high | portion bound high = value} =
      Set.Ico (value.toNat * UInt32.size ⌈/⌉ bound.toNat)
        ((value.toNat + 1) * UInt32.size ⌈/⌉ bound.toNat) := by
  have hbound : 0 < bound.toNat := Nat.zero_lt_of_lt (UInt32.lt_iff_toNat_lt.mp h)
  ext n
  constructor
  · rintro ⟨high, hhigh, rfl⟩
    rw [Set.mem_ofPred_eq, ← UInt32.toNat_inj, toNat_portion] at hhigh
    exact (mul_div_eq_iff (by decide) hbound).mp hhigh
  · intro hn
    have hstop : (value.toNat + 1) * UInt32.size ⌈/⌉ bound.toNat ≤ UInt32.size := by
      rw [ceilDiv_le_iff_le_mul hbound]
      exact Nat.mul_le_mul_right _ (UInt32.lt_iff_toNat_lt.mp h)
    have hsize : (UInt32.ofNat n).toNat = n :=
      UInt32.toNat_ofNat_of_lt' (Nat.lt_of_lt_of_le hn.2 hstop)
    refine ⟨UInt32.ofNat n, ?_, hsize⟩
    rw [Set.mem_ofPred_eq, ← UInt32.toNat_inj, toNat_portion, hsize]
    exact (mul_div_eq_iff (by decide) hbound).mpr hn

theorem fair_portion {bound value : UInt32} (h : value < bound) :
    Fair UInt32.size bound.toNat {high | portion bound high = value}.ncard := by
  rw [← Set.ncard_image_of_injective _ fun _ _ => UInt32.toNat_inj.mp, image_portion h,
    ← Finset.coe_Ico, Set.ncard_coe_finset, Nat.card_Ico]
  exact fair_run _ _ (Nat.zero_lt_of_lt (UInt32.lt_iff_toNat_lt.mp h))

theorem card_half : Nat.card UInt32 = UInt32.size := by
  rw [Nat.card_congr FinEnum.equiv, Nat.card_fin]
  rfl

theorem halves_bijective :
    Function.Bijective fun word : UInt64 => (high word, word.toUInt32) := by
  rw [Nat.bijective_iff_injective_and_card, Nat.card_prod, card_word, card_half]
  refine ⟨?_, by decide⟩
  intro word word' h
  obtain ⟨hhigh, hlow⟩ := Prod.mk.inj h
  rw [← UInt32.toNat_inj, toNat_high, toNat_high] at hhigh
  rw [← UInt32.toNat_inj, UInt64.toNat_toUInt32, UInt64.toNat_toUInt32] at hlow
  unfold UInt32.size at hhigh
  rw [← UInt64.toNat_inj]
  omega

theorem ncard_high {κ : Type} {word : κ → UInt64} (hword : Function.Bijective word)
    (highs : Set UInt32) :
    {key | high (word key) ∈ highs}.ncard = UInt32.size * highs.ncard := by
  have hhalves := halves_bijective.comp hword
  have hpreimage : {key | high (word key) ∈ highs} =
      Set.preimage ((fun word => (high word, word.toUInt32)) ∘ word) (highs ×ˢ Set.univ) := by
    ext key
    simp
  rw [hpreimage, Set.ncard_preimage_of_injective_subset_range hhalves.injective, Set.ncard_prod,
    Set.ncard_univ, card_half, Nat.mul_comm]
  rw [hhalves.surjective.range_eq]
  exact Set.subset_univ _

/-- Over all keys, a value is drawn as often as a fair count of high halves occurs. -/
def Evenly {κ β : Type} (draw : κ → β) (bound : Nat) (value : β) : Prop :=
  ∃ count, Fair UInt32.size bound count ∧ {key | draw key = value}.ncard = UInt32.size * count

theorem Evenly.of_iff {κ β γ : Type} {draw : κ → β} {draw' : κ → γ} {bound : Nat} {value : β}
    {value' : γ} (h : Evenly draw bound value)
    (hiff : ∀ key, draw' key = value' ↔ draw key = value) : Evenly draw' bound value' := by
  unfold Evenly
  simp only [hiff]
  exact h

theorem evenly_scale {κ : Type} {word : κ → UInt64} (hword : Function.Bijective word)
    {bound value : UInt32} (h : value < bound) :
    Evenly (fun key => scale (word key) bound) bound.toNat value := by
  refine ⟨_, fair_portion h, ?_⟩
  simp only [scale_eq_portion]
  exact ncard_high hword {high | portion bound high = value}

theorem evenly_nextBelow {bound value : UInt32} (h : value < bound) :
    Evenly (fun s : Stream => (s.nextBelow bound).1) bound.toNat value :=
  evenly_scale next_fst_bijective h

theorem evenly_explore {κ : Type} (v : View) (c : κ → Context)
    (hc : Function.Bijective fun key => (c key).stream) {action : Action}
    (h : action.code < exploreActions) :
    Evenly (fun key => Atomic.explore.evaluate v (c key)) 5 (.ok ⟨.running, action⟩) := by
  apply (evenly_scale (next_fst_bijective.comp hc) h).of_iff
  intro key
  rw [Atomic.evaluate]
  constructor
  · intro hevaluate
    exact congrArg (fun outcome => outcome.action.code) (Except.ok.inj hevaluate)
  · intro hcode
    exact congrArg (fun code => Except.ok (Outcome.mk .running ⟨code⟩)) hcode

section

variable {α : Type} {items : List α} {bound : UInt32}

def place (h : items.length = bound.toNat) (hbound : 0 < bound) (s : Stream) : Fin items.length :=
  ⟨(s.nextBelow bound).1.toNat, h ▸ toNat_scale_lt _ (UInt32.lt_iff_toNat_lt.mp hbound)⟩

theorem choose_fst (h : items.length = bound.toNat) (hbound : 0 < bound) (s : Stream) :
    (s.choose items).1 = some items[s.place h hbound] := by
  have hpos : 0 < items.length := h ▸ UInt32.lt_iff_toNat_lt.mp hbound
  have hlt : items.length < UInt32.size := h ▸ bound.toNat_lt
  have hcast : UInt32.ofNat items.length = bound := by rw [h, UInt32.ofNat_toNat]
  unfold choose
  rw [if_pos ⟨hpos, hlt⟩, hcast]
  exact List.getElem?_eq_getElem _

theorem evenly_place (h : items.length = bound.toNat) (hbound : 0 < bound)
    (i : Fin items.length) : Evenly (place h hbound) bound.toNat i := by
  have hi : i.val < bound.toNat := h ▸ i.isLt
  have hcast : (UInt32.ofNat i).toNat = i.val :=
    UInt32.toNat_ofNat_of_lt' (Nat.lt_trans hi bound.toNat_lt)
  have hlt : UInt32.ofNat i < bound := by
    rw [UInt32.lt_iff_toNat_lt, hcast]
    exact hi
  apply (evenly_nextBelow hlt).of_iff
  intro s
  rw [Fin.ext_iff, ← UInt32.toNat_inj, hcast]
  rfl

theorem evenly_choose (h : items.length = bound.toNat) (hbound : 0 < bound) (hnodup : items.Nodup)
    {item : α} (hitem : item ∈ items) :
    Evenly (fun s : Stream => (s.choose items).1) bound.toNat (some item) := by
  obtain ⟨i, hi, rfl⟩ := List.mem_iff_getElem.mp hitem
  apply (evenly_place h hbound ⟨i, hi⟩).of_iff
  intro s
  rw [choose_fst h hbound, Option.some_inj, Fin.ext_iff]
  exact hnodup.getElem_inj_iff

end

theorem draws_evenly (bound : UInt32) (hbound : 0 < bound) :
    (∃ portion : UInt32 → UInt32,
      (∀ s : Stream, (s.nextBelow bound).1 = portion (high s.next.1)) ∧
      (∀ half half', half ≤ half' → portion half ≤ portion half') ∧
      (∀ half, portion half < bound) ∧
      ∀ value < bound, Fair UInt32.size bound.toNat {half | portion half = value}.ncard) ∧
    (∀ value < bound, Evenly (fun s : Stream => (s.nextBelow bound).1) bound.toNat value) ∧
    (∀ {α : Type} (items : List α), items.length = bound.toNat →
      (∃ place : Stream → Fin items.length, (∀ s, (s.choose items).1 = some items[place s]) ∧
        ∀ i, Evenly place bound.toNat i) ∧
      (items.Nodup → ∀ item ∈ items,
        Evenly (fun s : Stream => (s.choose items).1) bound.toNat (some item))) ∧
    ∀ (v : View) (c : Context) (action : Action), action.code < exploreActions →
      (∀ agent tick, Evenly (fun seed => Atomic.explore.evaluate v (c.rekey agent tick seed)) 5
        (.ok ⟨.running, action⟩)) ∧
      (∀ tick seed, Evenly (fun agent => Atomic.explore.evaluate v (c.rekey agent tick seed)) 5
        (.ok ⟨.running, action⟩)) ∧
      ∀ agent seed, Evenly (fun tick => Atomic.explore.evaluate v (c.rekey agent tick seed)) 5
        (.ok ⟨.running, action⟩) := by
  refine ⟨⟨portion bound, fun s => scale_eq_portion _ bound, fun _ _ => portion_mono bound,
    portion_lt hbound, fun _ => fair_portion⟩, fun _ => evenly_nextBelow, ?items, ?explore⟩
  case items =>
    intro α items h
    refine ⟨⟨place h hbound, choose_fst h hbound, evenly_place h hbound⟩, ?_⟩
    intro hnodup item hitem
    exact evenly_choose h hbound hnodup hitem
  case explore =>
    intro v c action haction
    refine ⟨?seeds, ?agents, ?ticks⟩
    case seeds =>
      intro agent tick
      exact evenly_explore v (c.rekey agent tick) (forAgent_bijective_seed agent tick) haction
    case agents =>
      intro tick seed
      exact evenly_explore v (fun agent => c.rekey agent tick seed)
        (forAgent_bijective_agent seed tick) haction
    case ticks =>
      intro agent seed
      exact evenly_explore v (fun tick => c.rekey agent tick seed)
        (forAgent_bijective_tick seed agent) haction

theorem draws_evenly_three :
    (0 : UInt32) < 3 ∧ Evenly (fun s : Stream => (s.nextBelow 3).1) 3 2 ∧
      Evenly (fun s : Stream => (s.choose [10, 20, 30]).1) 3 (some 20) ∧
      Heading.west.action.code < exploreActions ∧ ∀ (v : View) (c : Context),
        Evenly (fun seed => Atomic.explore.evaluate v (c.rekey 1 0 seed)) 5
          (.ok ⟨.running, .west⟩) := by
  have hbound : (0 : UInt32) < 3 := by decide
  obtain ⟨-, hvalues, hitems, hexplore⟩ := draws_evenly 3 hbound
  have hwest : Heading.west.action.code < exploreActions := by decide
  refine ⟨hbound, hvalues 2 (by decide), ?_, hwest, ?_⟩
  · exact (hitems [10, 20, 30] rfl).2 (by decide) 20 (by decide)
  · intro v c
    exact (hexplore v c .west hwest).1 1 0

end Stream

end BattleTree
