import BattleTree.Proofs.Program.Descent
import BattleTree.Proofs.Program.Grammar

/-!
This module contains the agreement of the lexical functions with the grammar: blanks and comments,
names, words and quoted texts are read exactly where the grammar has them.
-/

namespace BattleTree

namespace Grammar

open Lexeme

def StartsToken (c : Char) : Prop :=
  isSpace c = false ∧ c ≠ '/'

instance (c : Char) : Decidable (StartsToken c) :=
  inferInstanceAs (Decidable (_ ∧ _))

theorem skip_blank {c : Char} {cs : List Char} (h : isSpace c = true) :
    skip (c :: cs) = skip cs := by
  unfold skip
  rw [skipFrom]
  · rw [if_pos h]
  · rintro rest rfl
    simp [isSpace] at h

theorem skip_token {c : Char} {cs : List Char} (h : StartsToken c) :
    skip (c :: cs) = c :: cs := by
  unfold skip
  rw [skipFrom]
  · rw [if_neg (by simp [h.1])]
  · rintro rest rfl
    exact absurd rfl h.2

theorem skipFrom_comment {line cs : List Char} (hline : '\n' ∉ line) (hends : LineEnds cs) :
    skipFrom true (line ++ cs) = skip cs := by
  induction line with
  | nil =>
    cases cs with
    | nil => rfl
    | cons c cs =>
      rw [hends c rfl]
      rfl
  | cons c line ih =>
    rw [List.mem_cons, not_or] at hline
    rw [List.cons_append, skipFrom, ← ih hline.2]
    simp [Ne.symm hline.1]

theorem skip_eq_of_gap {cs rest : List Char} (h : Gap cs rest) : skip cs = skip rest := by
  induction h with
  | none => rfl
  | blank hblank _ ih => rw [skip_blank hblank, ih]
  | comment hline hends _ ih =>
    rw [← ih, ← skipFrom_comment hline hends]
    rfl

theorem Gap.trans {cs mid rest : List Char} (h : Gap cs mid) (h' : Gap mid rest) :
    Gap cs rest := by
  induction h with
  | none => exact h'
  | blank hblank _ ih => exact .blank hblank (ih h')
  | comment hline hends _ ih => exact .comment hline hends (ih h')

theorem skip_eq_of_gap_token {c : Char} {cs rest : List Char} (h : Gap cs (c :: rest))
    (hc : StartsToken c) : skip cs = c :: rest := by
  rw [skip_eq_of_gap h, skip_token hc]

def GapFrom : (inComment : Bool) → List Char → List Char → Prop
  | false, cs, rest => Gap cs rest
  | true, cs, rest => ∃ line tail, cs = line ++ tail ∧ '\n' ∉ line ∧ LineEnds tail ∧ Gap tail rest

theorem gapFrom_skipFrom (inComment : Bool) (cs : List Char) :
    GapFrom inComment cs (skipFrom inComment cs) := by
  -- Inside of a comment, the rest of its line is still to be found.
  fun_induction skipFrom inComment cs with
  | case1 inComment =>
    cases inComment with
    | false => exact .none []
    | true => exact ⟨[], [], rfl, by simp, by simp [LineEnds], .none []⟩
  | case2 c cs ih =>
    by_cases hc : c = '\n'
    · subst hc
      exact ⟨[], '\n' :: cs, rfl, by simp, by simp [LineEnds], .blank rfl ih⟩
    · rw [decide_eq_true hc] at ih ⊢
      obtain ⟨line, tail, rfl, hline, hends, hgap⟩ := ih
      exact ⟨c :: line, tail, rfl, by simp [Ne.symm hc, hline], hends, hgap⟩
  | case3 cs ih =>
    obtain ⟨line, tail, rfl, hline, hends, hgap⟩ := ih
    exact .comment hline hends hgap
  | case4 c cs _ hblank ih => exact .blank hblank ih
  | case5 => exact .none _

theorem gap_skip (cs : List Char) : Gap cs (skip cs) := by
  exact gapFrom_skipFrom false cs

theorem skip_skip (cs : List Char) : skip (skip cs) = skip cs := by
  exact (skip_eq_of_gap (gap_skip cs)).symm

theorem not_isSpace_of_skip_eq {c : Char} {cs rest : List Char} (h : skip cs = c :: rest) :
    isSpace c = false := by
  rw [Bool.eq_false_iff]
  intro hc
  have hskip := skip_skip cs
  have hlength := length_skipFrom_le false rest
  rw [h, skip_blank hc] at hskip
  change (skip rest).length ≤ rest.length at hlength
  rw [hskip, List.length_cons] at hlength
  omega

theorem ne_slash_of_skip_eq {c : Char} {cs rest : List Char} (h : skip cs = '/' :: c :: rest) :
    c ≠ '/' := by
  rintro rfl
  have hskip := skip_skip cs
  have hlength := length_skipFrom_le true rest
  rw [h] at hskip
  change skipFrom true rest = _ at hskip
  rw [hskip, List.length_cons, List.length_cons] at hlength
  omega

theorem gap_iff_skip_eq {c : Char} (hc : StartsToken c) (cs rest : List Char) :
    Gap cs (c :: rest) ↔ skip cs = c :: rest := by
  constructor
  · intro h
    exact skip_eq_of_gap_token h hc
  · intro h
    rw [← h]
    apply gap_skip

theorem opens_iff (cs : List Char) : opens cs = true ↔ Opens cs := by
  unfold opens Opens
  simp only [gap_iff_skip_eq (show StartsToken '(' by decide)]
  cases skip cs with
  | nil => simp
  | cons c rest => simp

theorem Opens.of_gap {cs rest : List Char} (h : Gap cs rest) : Opens cs ↔ Opens rest := by
  rw [← opens_iff, ← opens_iff]
  unfold opens
  rw [skip_eq_of_gap h]

theorem not_opens_of_token {c : Char} {cs : List Char} (hc : StartsToken c) (h : c ≠ '(') :
    ¬Opens (c :: cs) := by
  rw [← opens_iff]
  simp [opens, skip_token hc, h]

theorem startsToken_of_startsName {c : Char} (h : startsName c = true) : StartsToken c := by
  constructor
  · rw [Bool.eq_false_iff]
    intro hspace
    simp only [isSpace, Bool.or_eq_true, decide_eq_true_eq] at hspace
    rcases hspace with ((rfl | rfl) | rfl) | rfl <;> simp [startsName] at h
  · rintro rfl
    simp [startsName] at h

theorem not_continuesName_of_isSpace {c : Char} (h : isSpace c = true) :
    continuesName c = false := by
  simp only [isSpace, Bool.or_eq_true, decide_eq_true_eq] at h
  rcases h with ((rfl | rfl) | rfl) | rfl <;> rfl

theorem NameEnds.of_gap {c : Char} {cs rest : List Char} (h : Gap cs (c :: rest))
    (hc : continuesName c = false) : NameEnds cs := by
  intro d hd
  -- A gap that is not empty starts with a blank or a slash.
  cases h with
  | none =>
    obtain rfl : c = d := by simpa using hd
    simp [hc]
  | blank hblank =>
    obtain rfl := Option.some.inj hd
    simp [not_continuesName_of_isSpace hblank]
  | comment =>
    obtain rfl := Option.some.inj hd
    decide

theorem name?_eq_some_iff {cs word rest : List Char} :
    name? cs = some (word, rest) ↔ NameText word cs rest := by
  constructor
  · intro h
    cases cs with
    | nil => simp [name?] at h
    | cons c cs =>
      simp only [name?] at h
      split at h
      · next hstart =>
        obtain ⟨rfl, rfl⟩ := Prod.mk.inj (Option.some.inj h)
        refine ⟨⟨hstart, ?_⟩, by simp, ?_⟩
        · intro d hd
          exact (List.all_eq_true.mp List.all_takeWhile) d hd
        · intro d hd
          have := List.head?_dropWhile_not continuesName cs
          rw [Option.mem_def.mp hd] at this
          simpa using this
      · simp at h
  · rintro ⟨hname, rfl, hends⟩
    cases word with
    | nil => exact hname.elim
    | cons c word =>
      have htake : rest.takeWhile continuesName = [] := by
        cases rest with
        | nil => rfl
        | cons d rest => exact List.takeWhile_cons_of_neg (hends d rfl)
      have hdrop : rest.dropWhile continuesName = rest := by
        cases rest with
        | nil => rfl
        | cons d rest => exact List.dropWhile_cons_of_neg (hends d rfl)
      rw [List.cons_append, name?, if_pos hname.1, List.takeWhile_append_of_pos hname.2,
        List.dropWhile_append_of_pos hname.2, htake, hdrop, List.append_nil]

theorem word?_eq_some_iff {cs word rest : List Char} :
    word? cs = some (word, rest) ↔ NameText word cs rest ∧ ¬Opens rest := by
  unfold word?
  rw [← opens_iff]
  cases h : name? cs with
  | none =>
    have : ¬NameText word cs rest := by
      rw [← name?_eq_some_iff, h]
      simp
    simp [this]
  | some found =>
    obtain ⟨word', rest'⟩ := found
    rw [← name?_eq_some_iff, h]
    dsimp
    split
    · next hopens =>
      simp
      rintro rfl rfl
      exact hopens
    · next hopens =>
      simp
      rintro rfl rfl
      simpa using hopens

theorem quoted?_eq_some_iff {cs text rest : List Char} :
    quoted? cs = some (text, rest) ↔ '"' ∉ text ∧ cs = text ++ '"' :: rest := by
  constructor
  · intro h
    unfold quoted? at h
    split at h
    · next quote tail hdrop =>
      obtain ⟨rfl, rfl⟩ := Prod.mk.inj (Option.some.inj h)
      constructor
      · intro hmem
        simpa using (List.all_eq_true.mp List.all_takeWhile) _ hmem
      · have hquote := List.head?_dropWhile_not (fun c : Char => decide (c ≠ '"')) cs
        have hsplit := List.takeWhile_append_dropWhile (p := (· ≠ '"')) (l := cs)
        rw [hdrop] at hquote hsplit
        obtain rfl : quote = '"' := by simpa using hquote
        exact hsplit.symm
    · simp at h
  · rintro ⟨htext, rfl⟩
    have hall : ∀ c ∈ text, decide (c ≠ '"') = true := by
      intro c hc
      rw [decide_eq_true_eq]
      rintro rfl
      exact htext hc
    unfold quoted?
    rw [List.dropWhile_append_of_pos hall, List.takeWhile_append_of_pos hall]
    simp

end Grammar

end BattleTree
