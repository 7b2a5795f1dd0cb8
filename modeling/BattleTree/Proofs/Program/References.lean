import BattleTree.Proofs.Program.Grammar

/-!
This module contains the canonical spelling of references: it is a name, and it is read back as the
same reference whatever its slot is.
-/

namespace BattleTree

open Grammar Lexeme

namespace Reference

theorem splitLast?_append {front digits : List Char} (h : '_' ∉ digits) :
    splitLast? (front ++ '_' :: digits) = some (front, digits) := by
  have hall : ∀ c ∈ digits.reverse, decide (c ≠ '_') = true := by
    intro c hc
    rw [decide_eq_true_eq]
    rintro rfl
    exact h (List.mem_reverse.mp hc)
  unfold splitLast?
  rw [List.reverse_append, List.reverse_cons, List.append_assoc]
  dsimp only
  rw [List.dropWhile_append_of_pos hall, List.takeWhile_append_of_pos hall]
  simp

theorem number?_toDigits (n : Nat) : number? (Nat.toDigits 10 n) = some n := by
  have hdigits : (Nat.toDigits 10 n).all Char.isDigit = true := by
    rw [List.all_eq_true]
    intro c hc
    exact Nat.isDigit_of_mem_toDigits (by omega) (by omega) hc
  unfold number?
  rw [← Nat.ofDigitChars_eq_foldl, Nat.ofDigitChars_ten_toDigits, hdigits]
  simp

theorem ofWord?_append (name : List Char) (slot : UInt64) :
    ofWord? (name ++ '_' :: Nat.toDigits 10 slot.toNat) =
      if name = "enemy".toList then some (enemy slot)
      else if name = "friend".toList then some (friend slot)
      else none := by
  have hself : name ++ '_' :: Nat.toDigits 10 slot.toNat ≠ "self".toList := by
    -- There is no underscore in it.
    intro h
    have hmem : '_' ∈ "self".toList := by
      rw [← h]
      simp
    exact absurd hmem (by decide)
  have hslot : slot.toNat < UInt64.size := slot.toNat_lt
  have hguard : (guard (slot.toNat < UInt64.size) : Option Unit) = some () := if_pos hslot
  unfold ofWord?
  rw [if_neg hself, splitLast?_append Nat.underscore_not_in_toDigits]
  dsimp only [bind, Option.bind]
  rw [number?_toDigits]
  dsimp only
  rw [hguard, UInt64.ofNat_toNat]
  rfl

theorem toList_text_enemy (slot : UInt64) :
    (enemy slot).text.toList = "enemy".toList ++ '_' :: Nat.toDigits 10 slot.toNat := by
  simp [text]
  rfl

theorem toList_text_friend (slot : UInt64) :
    (friend slot).text.toList = "friend".toList ++ '_' :: Nat.toDigits 10 slot.toNat := by
  simp [text]
  rfl

theorem ofWord?_text (reference : Reference) :
    ofWord? reference.text.toList = some reference := by
  cases reference with
  | self => rfl
  | enemy slot =>
    rw [toList_text_enemy, ofWord?_append, if_pos rfl]
  | friend slot =>
    rw [toList_text_friend, ofWord?_append, if_neg (by decide), if_pos rfl]

theorem isName_append {name digits : List Char} (hname : IsName name)
    (hdigits : ∀ c ∈ digits, c.isDigit = true) : IsName (name ++ '_' :: digits) := by
  cases name with
  | nil => exact hname.elim
  | cons c name =>
    rw [List.cons_append]
    refine ⟨hname.1, ?_⟩
    intro d hd
    rw [List.mem_append, List.mem_cons] at hd
    rcases hd with hd | rfl | hd
    · exact hname.2 d hd
    · decide
    · simp [continuesName, Char.isAlphanum, hdigits d hd]

theorem isName_text (reference : Reference) : IsName reference.text.toList := by
  have hdigits (n : Nat) : ∀ c ∈ Nat.toDigits 10 n, c.isDigit = true := by
    intro c hc
    exact Nat.isDigit_of_mem_toDigits (by omega) (by omega) hc
  cases reference with
  | self => decide
  | enemy slot =>
    rw [toList_text_enemy]
    exact isName_append (by decide) (hdigits _)
  | friend slot =>
    rw [toList_text_friend]
    exact isName_append (by decide) (hdigits _)

end Reference

end BattleTree
