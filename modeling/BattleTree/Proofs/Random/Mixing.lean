import BattleTree.Proofs.Scene.Basic
import Mathlib.Data.FinEnum
import Mathlib.Data.Nat.ModEq
import Mathlib.Data.Nat.Prime.Basic
import Mathlib.SetTheory.Cardinal.Finite

/-!
This module contains that random streams are told apart: every part of the mixing can be undone, so
that no two agents and no two ticks share a stream, and no stream repeats a word before it has
produced all of them.
-/

namespace BattleTree

namespace Stream

theorem xorShift_injective {shift : UInt64} (h : 0 < shift.toNat % 64) :
    Function.Injective (xorShift shift) := by
  intro a b heq
  unfold xorShift at heq
  -- The sum of two words with the same image is its own shift, which is smaller unless it is zero.
  have hsum : a ^^^ b = (a ^^^ b) >>> shift := by
    rw [UInt64.shiftRight_xor, ← UInt64.xor_eq_zero_iff]
    calc
      a ^^^ b ^^^ (a >>> shift ^^^ b >>> shift) =
          (a ^^^ a >>> shift) ^^^ (b ^^^ b >>> shift) := by ac_rfl
      _ = 0 := UInt64.xor_eq_zero_iff.mpr heq
  have hnat := congrArg UInt64.toNat hsum
  rw [UInt64.toNat_shiftRight, Nat.shiftRight_eq_div_pow] at hnat
  rw [← UInt64.xor_eq_zero_iff, ← UInt64.toNat_inj]
  by_contra hne
  have hlt := Nat.div_lt_self (Nat.pos_of_ne_zero hne) (Nat.one_lt_two_pow (Nat.ne_of_gt h))
  exact Nat.ne_of_gt hlt hnat

theorem mul_injective_of_odd {factor : UInt64} (h : Odd factor.toNat) :
    Function.Injective (· * factor) := by
  intro a b heq
  have hnat := congrArg UInt64.toNat heq
  simp only [UInt64.toNat_mul] at hnat
  have hcoprime : Nat.gcd (2 ^ 64) factor.toNat = 1 := by
    apply Nat.Coprime.pow_left
    exact Nat.coprime_two_left.mpr h
  have hmod : a.toNat % 2 ^ 64 = b.toNat % 2 ^ 64 := Nat.ModEq.cancel_right_of_coprime hcoprime hnat
  rwa [Nat.mod_eq_of_lt a.toNat_lt, Nat.mod_eq_of_lt b.toNat_lt, UInt64.toNat_inj] at hmod

theorem mix_bijective : Function.Bijective mix := by
  apply Finite.injective_iff_bijective.mp
  intro a b h
  -- The steps of the mixing are undone from the last one to the first one.
  have hsecond := xorShift_injective (by decide) h
  have hshifted := mul_injective_of_odd (by decide) hsecond
  have hfirst := xorShift_injective (by decide) hshifted
  have hmixed := mul_injective_of_odd (by decide) hfirst
  exact xorShift_injective (by decide) hmixed

theorem card_word : Nat.card UInt64 = 2 ^ 64 := by
  rw [Nat.card_congr FinEnum.equiv, Nat.card_fin]
  rfl

theorem mk_bijective : Function.Bijective Stream.mk := by
  constructor
  · intro a b h
    exact Stream.mk.inj h
  · intro s
    exact ⟨s.state, rfl⟩

theorem mk_mix_bijective {key : UInt64 → UInt64} (h : Function.Injective key) :
    Function.Bijective fun word => Stream.mk (mix (key word)) := by
  apply mk_bijective.comp
  apply mix_bijective.comp
  exact Finite.injective_iff_bijective.mp h

theorem forAgent_bijective_seed (agent tick : UInt64) :
    Function.Bijective fun seed => forAgent seed agent tick := by
  apply mk_mix_bijective
  intro seed seed' h
  rwa [UInt64.xor_left_inj, UInt64.xor_left_inj] at h

theorem forAgent_bijective_agent (seed tick : UInt64) :
    Function.Bijective fun agent => forAgent seed agent tick := by
  apply mk_mix_bijective
  intro agent agent' h
  rw [UInt64.xor_left_inj, UInt64.xor_right_inj] at h
  exact (UInt64.add_left_inj gamma).mp (mix_bijective.injective h)

theorem forAgent_bijective_tick (seed agent : UInt64) :
    Function.Bijective fun tick => forAgent seed agent tick := by
  apply mk_mix_bijective
  intro tick tick' h
  rw [UInt64.xor_right_inj] at h
  exact mix_bijective.injective h

theorem next_fst (s : Stream) : s.next.1 = mix (s.state + gamma) := rfl

theorem next_snd (s : Stream) : s.next.2 = ⟨s.state + gamma⟩ := rfl

theorem next_fst_bijective : Function.Bijective fun s : Stream => s.next.1 := by
  refine ⟨?injective, ?surjective⟩
  case injective =>
    intro s s' h
    have hstate := mix_bijective.injective h
    rwa [UInt64.add_left_inj, ← Stream.mk.injEq] at hstate
  case surjective =>
    intro word
    obtain ⟨state, rfl⟩ := mix_bijective.surjective word
    refine ⟨⟨state - gamma⟩, ?_⟩
    simp only [next_fst, UInt64.sub_add_cancel]

def advance (s : Stream) (calls : Nat) : Stream :=
  (fun s => s.next.2)^[calls] s

def word (s : Stream) (calls : Nat) : UInt64 :=
  (s.advance calls).next.1

theorem advance_succ (s : Stream) (calls : Nat) :
    s.advance (calls + 1) = (s.advance calls).next.2 := by
  unfold advance
  rw [Function.iterate_succ_apply']

theorem state_advance (s : Stream) (calls : Nat) :
    (s.advance calls).state = s.state + UInt64.ofNat calls * gamma := by
  induction calls with
  | zero => simp [advance]
  | succ calls ih =>
    rw [advance_succ, next_snd, ih, UInt64.ofNat_add, UInt64.add_mul, UInt64.add_assoc]
    simp

theorem word_eq_iff (s : Stream) (i j : Nat) : s.word i = s.word j ↔ i ≡ j [MOD 2 ^ 64] := by
  -- The step is odd, so that a stream comes to all states before it comes back to the first one.
  have hgamma : Function.Injective (· * gamma) := mul_injective_of_odd (by decide)
  unfold word
  rw [next_fst, next_fst, mix_bijective.injective.eq_iff, UInt64.add_left_inj, state_advance,
    state_advance, UInt64.add_right_inj, hgamma.eq_iff, ← UInt64.toNat_inj, UInt64.toNat_ofNat',
    UInt64.toNat_ofNat']
  rfl

theorem word_ne {i j : Nat} (s : Stream) (hlt : i < j) (hdistance : j - i < 2 ^ 64) :
    s.word i ≠ s.word j := by
  rw [ne_eq, word_eq_iff, Nat.modEq_iff_dvd' (Nat.le_of_lt hlt)]
  exact Nat.not_dvd_of_pos_of_lt (Nat.sub_pos_of_lt hlt) hdistance

theorem streams_differ :
    (∀ agent tick, Function.Bijective fun seed => forAgent seed agent tick) ∧
    (∀ seed tick, Function.Bijective fun agent => forAgent seed agent tick) ∧
    (∀ seed agent, Function.Bijective fun tick => forAgent seed agent tick) ∧
    Nat.card Stream = 2 ^ 64 ∧
    (∀ c c' : Context, c.seed = c'.seed → c.tick = c'.tick → c.agent.id ≠ c'.agent.id →
      c.stream ≠ c'.stream) ∧
    (∀ c c' : Context, c.seed = c'.seed → c.agent.id = c'.agent.id → c.tick ≠ c'.tick →
      c.stream ≠ c'.stream) ∧
    ∀ (s : Stream) (i j : Nat), i < j → j - i < 2 ^ 64 → s.word i ≠ s.word j := by
  refine ⟨forAgent_bijective_seed, forAgent_bijective_agent, forAgent_bijective_tick, ?card,
    ?agents, ?ticks, fun s i j => s.word_ne⟩
  case card =>
    rw [← Nat.card_eq_of_bijective _ mk_bijective, card_word]
  case agents =>
    intro c c' hseed htick hagent h
    unfold Context.stream at h
    rw [hseed, htick] at h
    exact hagent ((forAgent_bijective_agent c'.seed c'.tick).injective h)
  case ticks =>
    intro c c' hseed hagent htick h
    unfold Context.stream at h
    rw [hseed, hagent] at h
    exact htick ((forAgent_bijective_tick c'.seed c'.agent.id).injective h)

theorem streams_differ_duel :
    let c : Context := .duel
    let mate : Context := { c with agent := { c.agent with id := 2 } }
    c.seed = mate.seed ∧ c.tick = mate.tick ∧ c.agent.id ≠ mate.agent.id ∧
      c.stream ≠ mate.stream ∧ c.tick ≠ (c.atTick 1 0).tick ∧ c.stream ≠ (c.atTick 1 0).stream ∧
      c.stream.word 0 ≠ c.stream.word 1 := by
  intro c mate
  obtain ⟨-, -, -, -, hagents, hticks, hwords⟩ := streams_differ
  have hid : c.agent.id ≠ mate.agent.id := by decide
  have htick : c.tick ≠ (c.atTick 1 0).tick := by decide
  exact ⟨rfl, rfl, hid, hagents c mate rfl rfl hid, htick, hticks c (c.atTick 1 0) rfl rfl htick,
    hwords c.stream 0 1 (by decide) (by decide)⟩

end Stream

end BattleTree
