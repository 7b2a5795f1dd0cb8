import BattleTree.Proofs.Program.Extension

/-!
This module contains how far a text that is no program could still have become one. The same is said
of the parts of programs, which are languages: relations between a text that starts with some part
of a program and what is left after it.
-/

namespace BattleTree

open Lexeme

namespace Grammar

abbrev Language := List Char → List Char → Prop

def Viable (cs : List Char) : Prop :=
  ∃ tail t, ProgramText (fun _ => ()) t (cs ++ tail)

/-- A part of a token: the end of a word, or the half of a separator or of a comment mark. -/
inductive Piece : List Char → Prop where
  | nil : Piece []
  | word {start word : List Char} : IsName (start ++ word) → Piece word
  | colon : Piece [':']
  | slash : Piece ['/']

/-- At most one token or a part of it, with the blanks and comments behind it. -/
def Excess (mid after : List Char) : Prop :=
  ∃ piece gap, mid = piece ++ gap ∧ Piece piece ∧ Gap (gap ++ after) after

theorem Piece.excess {mid : List Char} (h : Piece mid) (after : List Char) : Excess mid after := by
  exact ⟨mid, [], by simp, h, .none after⟩

/--
How far a text goes on like one of the language: after `read` and `mid`, it could still be
completed, but with the next character of `after` it cannot.
-/
structure Window (L : Language) (read mid after : List Char) : Prop where
  excess : Excess mid after
  -- What completes the text does so before any rest, so that it can stand in a longer text.
  completes : ∃ tail, ∀ rest, L (read ++ (mid ++ (tail ++ rest))) rest
  breaks : ∀ c ∈ after.head?, ∀ tail rest, ¬L (read ++ (mid ++ c :: tail)) rest

def Points (L : Language) (cs rest : List Char) : Prop :=
  ∃ read mid after, cs = read ++ (mid ++ after) ∧ rest = mid ++ after ∧ Window L read mid after

theorem Points.lift {L L' : Language} {cs text rest : List Char}
    (h : Points L cs rest) (before tail : List Char) (htext : text = before ++ cs)
    (hcompletes : ∀ cs rest, L cs (tail ++ rest) → L' (before ++ cs) rest)
    (hbreaks : ∀ cs rest, L' (before ++ cs) rest → ∃ mid, L cs mid) : Points L' text rest := by
  subst htext
  obtain ⟨read, mid, after, rfl, rfl, hexcess, ⟨last, hlast⟩, hnext⟩ := h
  refine ⟨before ++ read, mid, after, by simp, rfl, hexcess, ⟨last ++ tail, ?_⟩, ?_⟩
  · intro rest
    have := hcompletes _ rest (hlast (tail ++ rest))
    simpa using this
  · intro c hc next rest h
    rw [List.append_assoc] at h
    obtain ⟨_, h⟩ := hbreaks _ rest h
    exact hnext c hc next _ h

structure Stop (cs gap mid after : List Char) : Prop where
  text_eq : cs = gap ++ (mid ++ after)
  skip_eq : skip cs = mid ++ after
  half : mid = [] ∨ mid = ['/']
  -- A comment may still be open, or half of its mark may be there, so a line feed comes first.
  resumes : ∃ tail, ∀ rest, Gap (gap ++ (mid ++ (tail ++ '\n' :: rest))) ('\n' :: rest)
  stays : ∀ c ∈ after.head?, ∀ tail, skip (gap ++ (mid ++ c :: tail)) = mid ++ c :: tail

theorem Stop.head?_eq {cs gap mid after : List Char} (h : Stop cs gap mid after) {c : Char}
    (hc : c ∈ after.head?) (tail : List Char) : (gap ++ (mid ++ c :: tail)).head? = cs.head? := by
  obtain ⟨after, rfl⟩ : ∃ cs, after = c :: cs := ⟨_, List.eq_cons_of_mem_head? hc⟩
  rw [h.text_eq]
  cases gap <;> cases mid <;> rfl

theorem Stop.exists_head {cs gap mid after : List Char} (h : Stop cs gap mid after) {c : Char}
    (hc : c ∈ after.head?) (tail : List Char) :
    ∃ d rest rest', skip cs = d :: rest ∧ skip (gap ++ (mid ++ c :: tail)) = d :: rest' := by
  obtain ⟨after, rfl⟩ : ∃ cs, after = c :: cs := ⟨_, List.eq_cons_of_mem_head? hc⟩
  rw [h.skip_eq, h.stays c hc]
  rcases h.half with rfl | rfl
  · exact ⟨c, after, tail, rfl, rfl⟩
  · exact ⟨'/', c :: after, c :: tail, rfl, rfl⟩

theorem Stop.excess {cs gap mid after : List Char} (h : Stop cs gap mid after) :
    Excess mid after := by
  rcases h.half with rfl | rfl
  · exact Piece.nil.excess after
  · exact Piece.slash.excess after

theorem gap_slash {gap : List Char} (hgap : ∀ rest, Gap (gap ++ rest) rest) (rest : List Char) :
    Gap (gap ++ '/' :: '/' :: '\n' :: rest) ('\n' :: rest) := by
  have hends : LineEnds ('\n' :: rest) := by simp [LineEnds]
  exact (hgap _).trans (@Gap.comment [] _ _ (by simp) hends (.none _))

theorem exists_stop (cs : List Char) : ∃ gap mid after, Stop cs gap mid after := by
  cases hskip : skip cs with
  | nil =>
    have hgap := gap_skip cs
    rw [hskip] at hgap
    obtain ⟨gap, rfl, hresumes⟩ := hgap.newline
    exact ⟨gap, [], [], rfl, hskip, .inl rfl, ⟨[], hresumes⟩, by simp⟩
  | cons d after =>
    obtain ⟨gap, rfl, hresumes⟩ := exists_gap hskip
    by_cases hd : d = '/'
    · subst hd
      refine ⟨gap, ['/'], after, rfl, hskip, .inr rfl, ⟨['/'], gap_slash hresumes⟩, ?_⟩
      intro c hc tail
      obtain ⟨after, rfl⟩ : ∃ cs, after = c :: cs := ⟨_, List.eq_cons_of_mem_head? hc⟩
      have hc := ne_slash_of_skip_eq hskip
      rw [skip_eq_of_gap (hresumes _)]
      unfold skip
      simp [skipFrom, hc, isSpace]
    · have hstarts : StartsToken d := ⟨not_isSpace_of_skip_eq hskip, hd⟩
      refine ⟨gap, [], d :: after, rfl, hskip, .inl rfl, ⟨[], fun rest => hresumes _⟩, ?_⟩
      intro c hc tail
      obtain rfl := Option.some.inj hc
      exact skip_eq_of_gap_token (hresumes _) hstarts

structure Part (L : Language) (A : Char → Prop) : Prop where
  of_gap : ∀ {cs start rest : List Char}, Gap cs start → L start rest → L cs rest
  starts : ∀ {cs rest : List Char}, L cs rest → ∃ c ∈ (skip cs).head?, A c
  exists_text : ∃ tail, ∀ rest, L (tail ++ rest) rest

theorem Part.points {L : Language} {A : Char → Prop} (hL : Part L A)
    {cs : List Char} (hcs : ∀ c ∈ (skip cs).head?, ¬A c) : Points L cs (skip cs) := by
  obtain ⟨gap, mid, after, hstop⟩ := exists_stop cs
  obtain ⟨tail, htail⟩ := hL.exists_text
  obtain ⟨last, hlast⟩ := hstop.resumes
  refine ⟨gap, mid, after, hstop.text_eq, hstop.skip_eq, hstop.excess,
    ⟨last ++ '\n' :: tail, ?_⟩, ?_⟩
  · intro rest
    have hblank : Gap ('\n' :: (tail ++ rest)) (tail ++ rest) := .blank (by decide) (.none _)
    have := hL.of_gap ((hlast (tail ++ rest)).trans hblank) (htail rest)
    simpa using this
  · intro c hc next rest h
    obtain ⟨d, z, z', hskip, hskip'⟩ := hstop.exists_head hc next
    obtain ⟨d', hd', hA⟩ := hL.starts h
    rw [hskip'] at hd'
    obtain rfl := Option.some.inj hd'
    rw [hskip] at hcs
    exact hcs d rfl hA

end Grammar

end BattleTree
