import BattleTree.Proofs.Program.Soundness

/-!
This module contains how the texts of the grammar start, and that no text is longer after one of
them than before it.
-/

namespace BattleTree

namespace Grammar

open Lexeme

theorem Gap.suffix {cs rest : List Char} (h : Gap cs rest) : rest <:+ cs := by
  induction h with
  | none => exact List.suffix_rfl
  | blank _ _ ih => exact ih.trans (List.suffix_cons _ _)
  | @comment line cs rest _ _ _ ih =>
    exact ih.trans ((List.suffix_append line cs).trans ⟨['/', '/'], rfl⟩)

theorem NameText.length_lt {word cs rest : List Char} (h : NameText word cs rest) :
    rest.length < cs.length := by
  obtain ⟨hname, rfl, -⟩ := h
  cases word with
  | nil => exact hname.elim
  | cons c word =>
    simp only [List.length_append, List.length_cons]
    omega

theorem ArgText.length_lt {arg : Arg} {cs rest : List Char} (h : ArgText arg cs rest) :
    rest.length < cs.length := by
  cases h with
  | word hname => exact hname.length_lt
  | ref hname => exact hname.length_lt
  | quoted =>
    simp only [List.length_append, List.length_cons]
    omega

theorem ArgsText.length_le {args : List Arg} {cs rest : List Char} (h : ArgsText args cs rest) :
    rest.length ≤ cs.length := by
  induction h with
  | nil => omega
  | cons hgap harg _ ih =>
    have := hgap.suffix.length_le
    have := harg.length_lt
    omega

theorem CallText.length_le {call : Call} {cs rest : List Char} (h : CallText call cs rest) :
    rest.length ≤ cs.length := by
  cases h with
  | mk hname hargs =>
    have := hname.length_lt
    have := hargs.length_le
    omega

theorem Opening.length_le {cs start : List Char} (h : Opening cs start) :
    start.length ≤ cs.length := by
  obtain ⟨paren, hparen, hstart⟩ := h
  have := hparen.suffix.length_le
  have := hstart.suffix.length_le
  simp only [List.length_cons] at *
  omega

theorem Closing.length_lt {cs rest : List Char} (h : Closing cs rest) :
    rest.length < cs.length := by
  have := h.suffix.length_le
  simp only [List.length_cons] at *
  omega

theorem NameText.startsToken {word cs rest : List Char} (h : NameText word cs rest) :
    ∃ c tail, cs = c :: tail ∧ StartsToken c ∧ c ≠ '"' ∧ c ≠ '(' := by
  obtain ⟨hname, rfl, -⟩ := h
  cases word with
  | nil => exact hname.elim
  | cons c word =>
    refine ⟨c, word ++ rest, rfl, startsToken_of_startsName hname.1, ?_, ?_⟩ <;>
    · rintro rfl
      exact absurd hname.1 (by decide)

theorem ArgText.startsToken {arg : Arg} {cs rest : List Char} (h : ArgText arg cs rest) :
    ∃ c tail, cs = c :: tail ∧ StartsToken c ∧ c ≠ '(' := by
  cases h with
  | word hname =>
    obtain ⟨c, tail, rfl, hc, -, hparen⟩ := hname.startsToken
    exact ⟨c, tail, rfl, hc, hparen⟩
  | ref hname =>
    obtain ⟨c, tail, rfl, hc, -, hparen⟩ := hname.startsToken
    exact ⟨c, tail, rfl, hc, hparen⟩
  | quoted => exact ⟨_, _, rfl, by decide, by decide⟩

theorem startsToken_letter (kind : Parser.Kind) : StartsToken kind.letter := by
  cases kind <;> decide

section

variable {σ : Type} {mark : Nat → σ}

theorem NodeText.starts {t : SyntaxTree σ} {cs rest : List Char} (h : NodeText mark t cs rest) :
    ∃ (kind : Parser.Kind) (tail start : List Char),
      cs = kind.letter :: tail ∧ Opening tail start := by
  cases h with
  | sequence hopen => exact ⟨.sequence, _, _, rfl, hopen⟩
  | fallback hopen => exact ⟨.fallback, _, _, rfl, hopen⟩
  | action hopen => exact ⟨.action, _, _, rfl, hopen⟩
  | condition hopen => exact ⟨.condition, _, _, rfl, hopen⟩
  | decorator hopen => exact ⟨.decorator, _, _, rfl, hopen⟩

mutual

theorem NodeText.length_lt {t : SyntaxTree σ} {cs rest : List Char}
    (h : NodeText mark t cs rest) : rest.length < cs.length := by
  cases h with
  | sequence hopen hnodes hclose | fallback hopen hnodes hclose =>
    have := hopen.length_le
    have := hnodes.length_le
    have := hclose.length_lt
    simp only [List.length_cons]
    omega
  | action hopen hcall hclose | condition hopen hcall hclose =>
    have := hopen.length_le
    have := hcall.length_le
    have := hclose.length_lt
    simp only [List.length_cons]
    omega
  | decorator hopen hcall hgap hnode hclose =>
    have := hopen.length_le
    have := hcall.length_le
    have := hgap.suffix.length_le
    have := hnode.length_lt
    have := hclose.length_lt
    simp only [List.length_cons]
    omega

theorem NodesText.length_le {ts : List (SyntaxTree σ)} {cs rest : List Char}
    (h : NodesText mark ts cs rest) : rest.length ≤ cs.length := by
  cases h with
  | nil => omega
  | cons hnode hsiblings =>
    have := hnode.length_lt
    have := hsiblings.length_le
    omega

theorem SiblingsText.length_le {ts : List (SyntaxTree σ)} {cs rest : List Char}
    (h : SiblingsText mark ts cs rest) : rest.length ≤ cs.length := by
  cases h with
  | nil => omega
  | cons hcolons hgap hnode hsiblings =>
    have := hcolons.suffix.length_le
    have := hgap.suffix.length_le
    have := hnode.length_lt
    have := hsiblings.length_le
    simp only [List.length_cons] at *
    omega

end

end

end Grammar

end BattleTree
