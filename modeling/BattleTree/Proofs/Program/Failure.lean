import BattleTree.Proofs.Program.Extension
import BattleTree.Proofs.Program.Recognition
import Mathlib.Data.List.DropRight
import Mathlib.Data.List.Induction

/-!
This module contains what the errors of malformed programs say of the place that they report: they
count the bytes, lines and characters before it, and no blanks of programs follow it. What they
quote is the next word of any script, which is not always the text at the reported place.
-/

namespace BattleTree

namespace Span

structure Locates (p : Span) (before : List Char) : Prop where
  offset_eq : p.offset = (String.ofList before).utf8ByteSize
  line_eq : p.line = 1 + before.count '\n'
  column_eq : p.column = 1 + (before.reverse.takeWhile (· ≠ '\n')).length

theorem after_concat (text : List Char) (c : Char) : after (text ++ [c]) = (after text).next c := by
  exact List.foldl_concat ..

theorem locates_after (text : List Char) : (after text).Locates text := by
  constructor
  · exact (foldl_next_offset start text).trans (Nat.zero_add _)
  · exact foldl_next_line start text
  · -- The column depends on the end of the text only.
    induction text using List.reverseRecOn with
    | nil => rfl
    | append_singleton text c ih =>
      rw [after_concat, List.reverse_concat]
      unfold next
      by_cases hc : c = '\n'
      · simp [hc]
      · rw [if_neg hc, List.takeWhile_cons_of_pos (by simpa using hc), List.length_cons, ih]
        rfl

theorem locates_ofRemaining (before rest : List Char) :
    (ofRemaining (before ++ rest) rest.length).Locates before := by
  have htake : (before ++ rest).take ((before ++ rest).length - rest.length) = before := by
    rw [List.length_append, Nat.add_sub_cancel, List.take_left]
  unfold ofRemaining
  rw [htake]
  apply locates_after

end Span

namespace Parser

open Grammar Lexeme

structure Settles (cs rest : List Char) : Prop where
  suffix : rest <:+ cs
  skip_eq : skip rest = rest

theorem Settles.of_suffix {cs mid rest : List Char} (h : Settles mid rest) (hmid : mid <:+ cs) :
    Settles cs rest := by
  exact ⟨h.suffix.trans hmid, h.skip_eq⟩

theorem settles_skip (cs : List Char) : Settles cs (skip cs) := by
  exact ⟨(gap_skip cs).suffix, skip_skip cs⟩

theorem settles_nil (cs : List Char) : Settles cs [] := by
  exact ⟨List.nil_suffix, rfl⟩

theorem rest_of_expect {c : Char} {cs : List Char} {f : Failure} (h : expect c cs = .error f) :
    f.rest = skip cs := by
  unfold expect at h
  split at h
  · next d rest hskip =>
    split at h
    · cases h
    · obtain rfl := Except.error.inj h
      exact hskip.symm
  · next hskip =>
    obtain rfl := Except.error.inj h
    exact hskip.symm

theorem rest_of_argsFrom {fuel : Nat} {cs : List Char} {f : Failure}
    (h : argsFrom fuel cs = .error f) : f.rest = [] := by
  induction fuel generalizing cs with
  | zero => cases h
  | succ fuel ih =>
    unfold argsFrom at h
    split at h
    · split at h
      · rcases bind_eq_error_iff.mp h with h | ⟨_, -, h⟩
        · exact ih h
        · cases h
      · obtain rfl := Except.error.inj h
        rfl
    · split at h
      · rcases bind_eq_error_iff.mp h with h | ⟨_, -, h⟩
        · exact ih h
        · cases h
      · cases h

theorem settles_of_call {cs : List Char} {f : Failure} (hcs : skip cs = cs)
    (h : call cs = .error f) : Settles cs f.rest := by
  unfold call at h
  split at h
  · rcases bind_eq_error_iff.mp h with h | ⟨_, -, h⟩
    · rw [rest_of_argsFrom h]
      apply settles_nil
    · cases h
  · obtain rfl := Except.error.inj h
    exact ⟨List.suffix_rfl, hcs⟩

section

variable {levels : Nat} {child : Reader (SyntaxTree Nat)}

def Settling (child : Reader (SyntaxTree Nat)) : Prop :=
  ∀ {cs : List Char} {f : Failure}, skip cs = cs → child cs = .error f → Settles cs f.rest

theorem settles_of_siblingsFrom (hsound : Sound (fun _ => ()) levels child)
    (hchild : Settling child) {fuel : Nat} {cs : List Char} {f : Failure}
    (h : siblingsFrom child fuel cs = .error f) : Settles cs f.rest := by
  induction fuel generalizing cs with
  | zero => cases h
  | succ fuel ih =>
    have hgap := (gap_skip cs).suffix
    unfold siblingsFrom at h
    split at h
    · next start hskip =>
      rw [hskip] at hgap
      have hstart : skip start <:+ cs :=
        (gap_skip start).suffix.trans ((List.suffix_append [':', ':'] start).trans hgap)
      rcases bind_eq_error_iff.mp h with h | ⟨⟨t, rest⟩, ht, h⟩
      · exact (hchild (skip_skip start) h).of_suffix hstart
      · have hrest := (hsound ht).1.suffix
        rcases bind_eq_error_iff.mp h with h | ⟨_, -, h⟩
        · exact (ih h).of_suffix (hrest.trans hstart)
        · cases h
    · cases h

theorem settles_of_children (hsound : Sound (fun _ => ()) levels child)
    (hchild : Settling child) {cs : List Char} {f : Failure} (h : children child cs = .error f) :
    Settles cs f.rest := by
  have hgap := (gap_skip cs).suffix
  unfold children at h
  split at h
  · cases h
  · rcases bind_eq_error_iff.mp h with h | ⟨⟨t, rest⟩, ht, h⟩
    · exact (hchild (skip_skip cs) h).of_suffix hgap
    · have hrest := (hsound ht).1.suffix
      rcases bind_eq_error_iff.mp h with h | ⟨_, -, h⟩
      · exact (settles_of_siblingsFrom hsound hchild h).of_suffix (hrest.trans hgap)
      · cases h

theorem settles_of_body (hsound : Sound (fun _ => ()) levels child) (hchild : Settling child)
    {kind : Kind} {mark : Nat} {cs : List Char} {f : Failure} (hcs : skip cs = cs)
    (h : body child kind mark cs = .error f) : Settles cs f.rest := by
  cases kind with
  | sequence | fallback =>
    rcases bind_eq_error_iff.mp h with h | ⟨_, -, h⟩
    · exact settles_of_children hsound hchild h
    · cases h
  | action | condition =>
    rcases bind_eq_error_iff.mp h with h | ⟨_, -, h⟩
    · exact settles_of_call hcs h
    · cases h
  | decorator =>
    rcases bind_eq_error_iff.mp h with h | ⟨⟨c, rest⟩, hc, h⟩
    · exact settles_of_call hcs h
    · have hrest := (callText_of_call hc).suffix
      rcases bind_eq_error_iff.mp h with h | ⟨_, -, h⟩
      · exact (hchild (skip_skip rest) h).of_suffix ((gap_skip rest).suffix.trans hrest)
      · cases h

theorem suffix_of_body (hsound : Sound (fun _ => ()) levels child) {kind : Kind} {mark : Nat}
    {t : SyntaxTree Nat} {cs rest : List Char} (h : body child kind mark cs = .ok (t, rest)) :
    rest <:+ cs := by
  cases kind with
  | sequence | fallback =>
    obtain ⟨⟨ts, _⟩, hts, h⟩ := bind_eq_ok_iff.mp h
    obtain ⟨rfl, rfl⟩ := Prod.mk.inj (Except.ok.inj h)
    obtain ⟨⟨start, hgap, hnodes⟩, -⟩ := nodesText_of_children hsound hts
    exact hnodes.suffix.trans hgap.suffix
  | action | condition =>
    obtain ⟨⟨c, _⟩, hc, h⟩ := bind_eq_ok_iff.mp h
    obtain ⟨rfl, rfl⟩ := Prod.mk.inj (Except.ok.inj h)
    exact (callText_of_call hc).suffix
  | decorator =>
    obtain ⟨⟨c, mid⟩, hc, h⟩ := bind_eq_ok_iff.mp h
    obtain ⟨⟨inner, _⟩, hinner, h⟩ := bind_eq_ok_iff.mp h
    obtain ⟨rfl, rfl⟩ := Prod.mk.inj (Except.ok.inj h)
    have hnode := (hsound hinner).1.suffix
    exact hnode.trans ((gap_skip mid).suffix.trans (callText_of_call hc).suffix)

theorem settling_node (levels : Nat) : Settling (node levels) := by
  induction levels with
  | zero =>
    intro cs f hcs h
    obtain rfl := Except.error.inj h
    exact ⟨List.suffix_rfl, hcs⟩
  | succ levels ih =>
    intro cs f hcs h
    have hsound : Sound (fun _ => ()) levels (node levels) := sound_node _ levels
    unfold node at h
    split at h
    · obtain rfl := Except.error.inj h
      exact settles_nil []
    · next letter tail =>
      have htail : tail <:+ letter :: tail := List.suffix_cons ..
      split at h
      · obtain rfl := Except.error.inj h
        exact ⟨List.suffix_rfl, hcs⟩
      · rcases bind_eq_error_iff.mp h with h | ⟨start, hstart, h⟩
        · rw [rest_of_expect h]
          exact (settles_skip tail).of_suffix htail
        · have hopen : skip start <:+ letter :: tail :=
            (gap_skip start).suffix.trans ((List.suffix_cons '(' start).trans
              ((gap_of_expect hstart).suffix.trans htail))
          rcases bind_eq_error_iff.mp h with h | ⟨⟨t, rest⟩, ht, h⟩
          · exact (settles_of_body hsound ih (skip_skip start) h).of_suffix hopen
          · have hrest := suffix_of_body hsound ht
            rcases bind_eq_error_iff.mp h with h | ⟨_, -, h⟩
            · rw [rest_of_expect h]
              exact (settles_skip rest).of_suffix (hrest.trans hopen)
            · cases h

end

theorem settles_of_program {cs : List Char} {f : Failure} (h : program cs = .error f) :
    Settles cs f.rest := by
  have hgap := (gap_skip cs).suffix
  rcases bind_eq_error_iff.mp h with h | ⟨⟨t, rest⟩, ht, h⟩
  · exact (settling_node maxDepth (skip_skip cs) h).of_suffix hgap
  · have hnode := (sound_node (fun _ => ()) maxDepth ht).1.suffix
    dsimp only at h
    split at h
    · cases h
    · obtain rfl := Except.error.inj h
      exact (settles_skip rest).of_suffix (hnode.trans hgap)

end Parser

namespace Program

open Lexeme

theorem exists_failure_of_parse {text : String} {e : ParseError} (h : parse text = .error e) :
    ∃ f, Parser.program text.toList = .error f ∧ e = .ofFailure text.toList f := by
  rw [parse_eq] at h
  split at h
  · cases h
  · next f hf => exact ⟨f, hf, (Except.error.inj h).symm⟩

theorem parse_of_program_error {text : String} {f : Failure}
    (h : Parser.program text.toList = .error f) :
    parse text = .error (.ofFailure text.toList f) := by
  rw [parse_eq, h]

theorem text_shallower : Expected.shallower.text = "nesting at most 64 deep" := by
  decide

structure Reports (text : String) (e : ParseError) (before rest : List Char) : Prop where
  text_eq : text.toList = before ++ rest
  locates : e.span.Locates before
  skip_eq : skip rest = rest
  found_eq : e.found = (firstWord? rest).getD "end of input"

theorem exists_reports_of_parse {text : String} {e : ParseError} (h : parse text = .error e) :
    ∃ before rest, Reports text e before rest := by
  obtain ⟨f, hf, rfl⟩ := exists_failure_of_parse h
  have hsettles := Parser.settles_of_program hf
  obtain ⟨before, hbefore⟩ := hsettles.suffix
  refine ⟨before, f.rest, hbefore.symm, ?_, hsettles.skip_eq, rfl⟩
  unfold ParseError.ofFailure
  rw [← hbefore]
  apply Span.locates_ofRemaining

/--
What an error quotes of the text at its place: nothing but the end if there is no text, and else the
word that the text starts with, or as much of it as fits.
-/
structure Quotes (found : String) (rest : List Char) : Prop where
  end_iff : found = "end of input" ↔ rest = []
  word_eq : rest ≠ [] →
    found = String.ofList ((rest.takeWhile fun c => !Text.isBlank c).take quotedLength)
  word_ne_nil : rest ≠ [] → found.toList ≠ [] ∧ found.toList <+: rest

theorem quotes_of_not_isBlank {c : Char} {cs : List Char} (hc : Text.isBlank c = false) :
    Quotes ((firstWord? (c :: cs)).getD "end of input") (c :: cs) := by
  have hword : (c :: cs).takeWhile (fun c => !Text.isBlank c) =
      c :: cs.takeWhile fun c => !Text.isBlank c := by
    exact List.takeWhile_cons_of_pos (by simp [hc])
  have hfound : (firstWord? (c :: cs)).getD "end of input" =
      String.ofList (((c :: cs).takeWhile fun c => !Text.isBlank c).take quotedLength) := by
    unfold firstWord?
    rw [List.dropWhile_cons_of_neg (by simp [hc]), hword]
    rfl
  constructor
  · -- There is a blank in the words for the end.
    constructor
    · intro h
      rw [hfound] at h
      have hmem : ' ' ∈ ((c :: cs).takeWhile fun c => !Text.isBlank c).take quotedLength := by
        rw [← String.toList_ofList (l := List.take ..), h]
        decide
      have := List.all_eq_true.mp List.all_takeWhile ' ' (List.mem_of_mem_take hmem)
      exact absurd this (by decide)
    · intro h
      cases h
  · intro _
    exact hfound
  · intro _
    rw [hfound, String.toList_ofList]
    constructor
    · rw [hword]
      simp [quotedLength]
    · exact (List.take_prefix ..).trans (List.takeWhile_prefix _)

theorem quotes_nil : Quotes ((firstWord? []).getD "end of input") [] := by
  exact ⟨by simp [firstWord?], by simp, by simp⟩

theorem firstWord?_dropWhile (rest : List Char) :
    firstWord? (rest.dropWhile Text.isBlank) = firstWord? rest := by
  unfold firstWord?
  rw [List.dropWhile_idempotent Text.isBlank]

theorem quotes_dropWhile (rest : List Char) :
    Quotes ((firstWord? rest).getD "end of input") (rest.dropWhile Text.isBlank) := by
  rw [← firstWord?_dropWhile]
  have hhead := List.head?_dropWhile_not Text.isBlank rest
  cases hdrop : rest.dropWhile Text.isBlank with
  | nil => exact quotes_nil
  | cons c cs =>
    rw [hdrop] at hhead
    exact quotes_of_not_isBlank (by simpa using hhead)

theorem Reports.quotes_iff {text : String} {e : ParseError} {before rest : List Char}
    (h : Reports text e before rest) :
    Quotes e.found rest ↔ ∀ c ∈ rest.head?, Text.isBlank c = false := by
  rw [h.found_eq]
  cases rest with
  | nil => simp [quotes_nil]
  | cons c cs =>
    constructor
    · intro hquotes d hd
      obtain rfl := Option.some.inj hd
      rw [Bool.eq_false_iff]
      intro hc
      have hfound := hquotes.word_eq (List.cons_ne_nil c cs)
      rw [List.takeWhile_cons_of_neg (by simp [hc])] at hfound
      apply (hquotes.word_ne_nil (List.cons_ne_nil c cs)).1
      rw [hfound]
      rfl
    · intro hhead
      exact quotes_of_not_isBlank (hhead c rfl)

theorem Reports.offset_eq_iff {text : String} {e : ParseError} {before rest : List Char}
    (h : Reports text e before rest) : e.span.offset = text.utf8ByteSize ↔ rest = [] := by
  have htext : text = String.ofList before ++ String.ofList rest := by
    rw [← String.ofList_append, ← h.text_eq, String.ofList_toList]
  rw [h.locates.offset_eq, htext, String.utf8ByteSize_append, Nat.left_eq_add,
    String.utf8ByteSize_eq_zero_iff]
  simp

theorem quotes_of_parse {text : String} {e : ParseError} (h : parse text = .error e) :
    ∃ before rest, text.toList = before ++ rest ∧ e.span.Locates before ∧
      (e.span.offset = text.utf8ByteSize ↔ rest = []) ∧
      Quotes e.found (rest.dropWhile Text.isBlank) ∧
      (Quotes e.found rest ↔ ∀ c ∈ rest.head?, Text.isBlank c = false) ∧
      ((∀ c ∈ text.toList, Text.isBlank c = true → isSpace c = true) → Quotes e.found rest) := by
  obtain ⟨before, rest, hreports⟩ := exists_reports_of_parse h
  refine ⟨before, rest, hreports.text_eq, hreports.locates, hreports.offset_eq_iff, ?_,
    hreports.quotes_iff, ?_⟩
  · rw [hreports.found_eq]
    apply quotes_dropWhile
  · intro hblank
    rw [hreports.quotes_iff]
    intro c hc
    obtain ⟨cs, rfl⟩ : ∃ cs, rest = c :: cs := ⟨_, List.eq_cons_of_mem_head? hc⟩
    have hmem : c ∈ text.toList := by
      rw [hreports.text_eq]
      simp
    rw [Bool.eq_false_iff]
    intro hisBlank
    have := Grammar.not_isSpace_of_skip_eq hreports.skip_eq
    rw [hblank c hmem hisBlank] at this
    cases this

theorem quotes_of_parse_colons :
    parse "S(A(stand) // é\n ::: C(is_armed self))" =
      .error ⟨⟨20, 2, 4⟩, Expected.node.text, ":"⟩ ∧
    (∀ c ∈ "S(A(stand) // é\n ::: C(is_armed self))".toList,
      Text.isBlank c = true → isSpace c = true) ∧
    ∃ before rest, "S(A(stand) // é\n ::: C(is_armed self))".toList = before ++ rest ∧
      Span.Locates ⟨20, 2, 4⟩ before ∧ Quotes ":" rest := by
  -- There is one colon too many, on the line after a comment.
  have hparse : parse "S(A(stand) // é\n ::: C(is_armed self))" =
      .error ⟨⟨20, 2, 4⟩, Expected.node.text, ":"⟩ := by
    rw [parse_eq]
    rfl
  have hblank : ∀ c ∈ "S(A(stand) // é\n ::: C(is_armed self))".toList,
      Text.isBlank c = true → isSpace c = true := by
    have hall : "S(A(stand) // é\n ::: C(is_armed self))".toList.all
        (fun c => !Text.isBlank c || isSpace c) = true := by decide
    intro c hc hisBlank
    simpa [hisBlank] using List.all_eq_true.mp hall c hc
  obtain ⟨before, rest, htext, hlocates, -, -, -, hquotes⟩ := quotes_of_parse hparse
  exact ⟨hparse, hblank, before, rest, htext, hlocates, hquotes hblank⟩

theorem quotes_end_of_noBreakSpace :
    ∃ e, parse "A(stand)\u00a0" = .error e ∧ e.expected = "end of input" ∧
      e.found = "end of input" ∧ e.span.offset ≠ "A(stand)\u00a0".utf8ByteSize := by
  -- A no-break space is no blank of programs, but is skipped when the error quotes the text.
  rw [parse_eq]
  exact ⟨_, rfl, rfl, rfl, by decide⟩

end Program

end BattleTree
