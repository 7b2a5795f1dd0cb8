import BattleTree.Proofs.Program.Parts

/-!
This module contains what may follow a call. Its arguments go on as long as there are any, so where
the call ends depends on what comes next: a word is an argument unless a parenthesis opens after it.
-/

namespace BattleTree

open Lexeme

namespace Grammar

theorem ArgsText.append {args args' : List Arg} {cs mid rest : List Char}
    (h : ArgsText args cs mid) (h' : ArgsText args' mid rest) :
    ArgsText (args ++ args') cs rest := by
  induction h with
  | nil => exact h'
  | cons hgap harg _ ih => exact .cons hgap harg (ih h')

theorem GapCall.append {args : List Arg} {cs mid rest : List Char} (h : GapCall cs mid)
    (hargs : ArgsText args mid rest) : GapCall cs rest := by
  obtain ⟨start, c, hgap, hcall⟩ := h
  cases hcall with
  | mk hname hothers => exact ⟨start, _, hgap, .mk hname (hothers.append hargs)⟩

theorem noArg_of_symbol {cs : List Char}
    (h : ∀ c ∈ (skip cs).head?, startsName c = false ∧ c ≠ '"') : Parser.NoArg cs := by
  cases hskip : skip cs with
  | nil => exact ⟨by simp [hskip], by rw [hskip]; rfl⟩
  | cons c tail =>
    rw [hskip] at h
    obtain ⟨hname, hquote⟩ := h c rfl
    constructor
    · intro body
      rw [hskip]
      intro heq
      exact hquote (List.cons.inj heq).1
    · rw [hskip]
      simp [word?, name?, hname]

theorem noArg_of_word {word cs rest : List Char} (h : NameText word (skip cs) rest)
    (hopens : Opens rest) : Parser.NoArg cs := by
  obtain ⟨c, tail, hskip, -, hquote, -⟩ := h.startsToken
  constructor
  · intro body heq
    rw [heq] at hskip
    exact hquote (List.cons.inj hskip).1.symm
  · cases hword : word? (skip cs) with
    | none => rfl
    | some found =>
      obtain ⟨other, last⟩ := found
      obtain ⟨hother, hnot⟩ := word?_eq_some_iff.mp hword
      have heq := name?_eq_some_iff.mpr hother
      rw [name?_eq_some_iff.mpr h] at heq
      obtain ⟨rfl, rfl⟩ := Prod.mk.inj (Option.some.inj heq)
      exact absurd hopens hnot

structure Follows (K : Language) (Starts : List Char → Prop) : Prop where
  exists_part : ∃ A, Part K A ∧ ¬A '('
  noArg : ∀ {cs rest : List Char}, K cs rest → Parser.NoArg cs
  starts : ∀ {cs rest : List Char}, K cs rest → Starts (skip cs)
  -- Whether it starts is known behind a symbol, and behind the parenthesis that opens after a word.
  of_symbol : ∀ {c : Char} {cs cs' : List Char}, startsName c = false → Starts (c :: cs) →
    Starts (c :: cs')
  of_word : ∀ {word gap cs cs' : List Char}, IsName word → (∀ rest, Gap (gap ++ rest) rest) →
    Starts (word ++ (gap ++ '(' :: cs)) → Starts (word ++ (gap ++ '(' :: cs'))

theorem Follows.not_opens {K : Language} {Starts : List Char → Prop}
    (hK : Follows K Starts) {cs rest : List Char} (h : K cs rest) : ¬Opens cs := by
  obtain ⟨A, hpart, hparen⟩ := hK.exists_part
  obtain ⟨c, hc, hA⟩ := hpart.starts h
  rw [← opens_iff]
  unfold opens
  rw [Option.mem_def.mp hc]
  rintro heq
  obtain rfl : c = '(' := by simpa using heq
  exact hparen hA

section

variable {K : Language} {Starts : List Char → Prop}

theorem points_of_symbol (hK : Follows K Starts) {cs mid : List Char} (hcall : GapCall cs mid)
    (hsymbol : ∀ c ∈ (skip mid).head?, startsName c = false ∧ c ≠ '"')
    (hfail : ¬Starts (skip mid)) : Points (CallThen K) cs (skip mid) := by
  -- No argument starts with the character after the call, and nothing else that may follow does.
  obtain ⟨q, rfl, hq⟩ := hcall.exists_prefix
  obtain ⟨gap, half, after, hstop⟩ := exists_stop mid
  obtain ⟨A, hpart, -⟩ := hK.exists_part
  obtain ⟨tail, htail⟩ := hpart.exists_line
  obtain ⟨last, hlast⟩ := hstop.resumes
  refine ⟨q ++ gap, half, after, ?_, hstop.skip_eq, hstop.excess,
    ⟨last ++ '\n' :: tail, ?_⟩, ?_⟩
  · rw [List.append_assoc, ← hstop.text_eq]
  · intro rest
    have hgap := hlast (tail ++ rest)
    have hrest := hpart.of_gap hgap (htail rest)
    have := hq _ (fun _ => .of_gap hgap (by decide)) (fun h => absurd h (hK.not_opens hrest))
    exact ⟨_, by simpa using this, by simpa using hrest⟩
  · rintro c hc next rest ⟨mid', hcall', hrest⟩
    obtain ⟨d, z, z', hskip, hskip'⟩ := hstop.exists_head hc next
    rw [hskip] at hsymbol hfail
    have hsame : GapCall (q ++ (gap ++ (half ++ c :: next))) (gap ++ (half ++ c :: next)) := by
      apply hq
      · exact nameEnds_congr (hstop.head?_eq hc next)
      · rw [← opens_iff, ← opens_iff]
        unfold opens
        rw [hskip, hskip']
        exact id
    have hnoArg : Parser.NoArg (gap ++ (half ++ c :: next)) := by
      apply noArg_of_symbol
      rw [hskip']
      exact hsymbol
    rw [List.append_assoc] at hcall'
    obtain rfl := hsame.unique hnoArg hcall' (hK.noArg hrest)
    have hstarts := hK.starts hrest
    rw [hskip'] at hstarts
    exact hfail (hK.of_symbol (hsymbol d rfl).1 hstarts)

theorem skip_word {word gap : List Char} (hword : IsName word)
    (hgap : ∀ rest, Gap (gap ++ rest) rest) (rest : List Char) :
    skip (gap ++ (word ++ rest)) = word ++ rest ∧ ¬Opens (gap ++ (word ++ rest)) := by
  cases word with
  | nil => exact hword.elim
  | cons c word =>
    have hc := startsToken_of_startsName hword.1
    constructor
    · exact skip_eq_of_gap_token (hgap _) hc
    · rw [Opens.of_gap (hgap _)]
      apply not_opens_of_token hc
      rintro rfl
      exact absurd hword.1 (by decide)

theorem points_of_word (hK : Follows K Starts) {cs mid word word' after : List Char}
    (hcall : GapCall cs mid) (hword : NameText (word ++ word') (skip mid) after)
    (hopens : Opens after) (hfail : ¬Starts (skip mid)) :
    Points (CallThen K) cs (word' ++ after) := by
  -- Up to the parenthesis behind it, the word could still have become one more argument.
  obtain ⟨q, rfl, hq⟩ := hcall.exists_prefix
  obtain ⟨c, tail, hskip, -⟩ := hword.startsToken
  obtain ⟨gap, rfl, hgap⟩ := exists_gap hskip
  obtain ⟨paren, hparen⟩ := hopens
  obtain ⟨gap', rfl, hgap'⟩ := hparen.exchange (by decide)
  obtain ⟨hname, heq, -⟩ := hword
  rw [heq] at hskip hfail
  rw [← hskip] at hq ⊢
  have hsame (rest : List Char) :
      GapCall (q ++ (gap ++ (word ++ word' ++ rest))) (gap ++ (word ++ word' ++ rest)) := by
    apply hq
    · have hne : gap ++ (word ++ word') ≠ [] := by
        intro h
        rw [(List.append_eq_nil_iff.mp h).2] at hname
        exact hname
      have := nameEnds_congr (head?_append_congr hne (gap' ++ '(' :: paren) rest)
      simpa using this
    · exact fun h => absurd h (skip_word hname hgap rest).2
  obtain ⟨A, hpart, -⟩ := hK.exists_part
  obtain ⟨last, hlast⟩ := hpart.exists_line
  -- A line feed in the place of the parenthesis makes the word an argument.
  refine ⟨q ++ (gap ++ word), word' ++ gap', '(' :: paren, by simp, by simp, ?_,
    ⟨'\n' :: last, ?_⟩, ?_⟩
  · exact ⟨word', gap', rfl, .word hname, hgap' _⟩
  · intro rest
    have hrest := hpart.of_gap (hgap' _) (hlast rest)
    have hends : NameEnds (gap' ++ '\n' :: (last ++ rest)) := .of_gap (hgap' _) (by decide)
    have harg := Parser.argText_of_word ⟨hname, rfl, hends⟩ (hK.not_opens hrest)
    have := (hsame _).append (.cons (hgap _) harg (.nil _))
    exact ⟨_, by simpa using this, by simpa using hrest⟩
  · intro c hc next rest h
    obtain rfl := Option.some.inj hc
    obtain ⟨mid', hcall', hrest⟩ : CallThen K
        (q ++ (gap ++ (word ++ word' ++ (gap' ++ '(' :: next)))) rest := by
      simpa using h
    have hskip' := (skip_word hname hgap (gap' ++ '(' :: next)).1
    have hends : NameEnds (gap' ++ '(' :: next) := .of_gap (hgap' _) (by decide)
    have hnoArg := noArg_of_word ⟨hname, hskip', hends⟩ ⟨next, hgap' _⟩
    obtain rfl := (hsame _).unique hnoArg hcall' (hK.noArg hrest)
    have hstarts := hK.starts hrest
    rw [hskip'] at hstarts
    exact hfail (hK.of_word hname hgap' hstarts)

theorem symbol_or_word {cs : List Char} (h : Parser.NoArg cs) :
    (∀ c ∈ (skip cs).head?, startsName c = false ∧ c ≠ '"') ∨
      ∃ word rest, NameText word (skip cs) rest ∧ Opens rest := by
  cases hskip : skip cs with
  | nil => exact .inl (by simp)
  | cons c tail =>
    by_cases hc : startsName c = true
    · have hname : name? (c :: tail) = some _ := if_pos hc
      rw [name?_eq_some_iff] at hname
      refine .inr ⟨_, _, hname, ?_⟩
      by_contra hopens
      have hword := word?_eq_some_iff.mpr ⟨hname, hopens⟩
      rw [← hskip, h.not_word] at hword
      cases hword
    · refine .inl ?_
      intro d hd
      obtain rfl := Option.some.inj hd
      refine ⟨by simpa using hc, ?_⟩
      rintro rfl
      exact h.not_quote tail hskip

theorem Follows.points (hK : Follows K Starts) {cs mid : List Char} (hcall : GapCall cs mid)
    (hmid : Parser.NoArg mid) (hfail : ¬Starts (skip mid)) :
    Points (CallThen K) cs (skip mid) := by
  rcases symbol_or_word hmid with hsymbol | ⟨word, after, hword, hopens⟩
  · exact points_of_symbol hK hcall hsymbol hfail
  · have hsplit : NameText ([] ++ word) (skip mid) after := hword
    rw [hword.eq_append]
    exact points_of_word hK hcall hsplit hopens hfail

end

theorem startsToken_of_continuesName {c : Char} (h : continuesName c = true) : StartsToken c := by
  constructor
  · rw [Bool.eq_false_iff]
    intro hspace
    rw [not_continuesName_of_isSpace hspace] at h
    cases h
  · rintro rfl
    exact absurd h (by decide)

theorem not_opens_of_continuesName {c : Char} {cs : List Char} (h : continuesName c = true) :
    ¬Opens (c :: cs) := by
  apply not_opens_of_token (startsToken_of_continuesName h)
  rintro rfl
  exact absurd h (by decide)

theorem follows_closing : Follows Closing fun cs => cs.head? = some ')' := by
  constructor
  · exact ⟨_, part_closing, by decide⟩
  · exact Parser.noArg_of_closing
  · intro cs rest h
    rw [skip_eq_of_gap_token h (by decide)]
    rfl
  · exact fun _ h => h
  · intro word gap cs cs' hword _ h
    cases word with
    | nil => exact hword.elim
    | cons c word => exact h

def StartsNode (cs : List Char) : Prop :=
  ∃ (kind : Parser.Kind) (tail : List Char), cs = kind.letter :: tail ∧ Opens tail

theorem follows_lastNode : Follows LastNode StartsNode := by
  constructor
  · refine ⟨_, part_lastNode, ?_⟩
    intro h
    exact absurd (startsName_of_isLetter h) (by decide)
  · rintro cs rest ⟨mid, hnode, -⟩
    exact hnode.noArg
  · rintro cs rest ⟨mid, hnode, -⟩
    obtain ⟨kind, tail, hgap, paren, hparen, -⟩ := gapNode_iff.mp hnode
    rw [skip_eq_of_gap_token hgap (startsToken_letter kind)]
    exact ⟨kind, tail, rfl, paren, hparen⟩
  · rintro c cs cs' hc ⟨kind, tail, heq, -⟩
    obtain ⟨rfl, -⟩ := List.cons.inj heq
    rw [startsName_of_isLetter ⟨kind, rfl⟩] at hc
    cases hc
  · rintro word gap cs cs' hword hgap ⟨kind, tail, heq, hopens⟩
    rcases word with _ | ⟨c, _ | ⟨d, word⟩⟩
    · exact hword.elim
    · obtain ⟨rfl, -⟩ := List.cons.inj heq
      exact ⟨kind, _, rfl, cs', hgap _⟩
    · obtain ⟨-, rfl⟩ := List.cons.inj heq
      exact absurd hopens (not_opens_of_continuesName (hword.2 d List.mem_cons_self))

theorem points_of_letter {cs mid tail : List Char} {kind : Parser.Kind} (hcall : GapCall cs mid)
    (hmid : Parser.NoArg mid) (hskip : skip mid = kind.letter :: tail) (hnot : ¬Opens tail) :
    Points (CallThen LastNode) cs (skip tail) := by
  -- The letter belongs to a longer word, which is refused from its second character on.
  have hfail : ¬StartsNode (skip mid) := by
    rintro ⟨other, tail', heq, hopens⟩
    rw [hskip] at heq
    obtain ⟨-, rfl⟩ := List.cons.inj heq
    exact hnot hopens
  rcases symbol_or_word hmid with hsymbol | ⟨word, after, hword, hopens⟩
  · rw [hskip] at hsymbol
    have := (hsymbol _ rfl).1
    rw [startsName_of_isLetter ⟨kind, rfl⟩] at this
    cases this
  · have hname := hword.isName
    have heq := hword.eq_append
    rw [hskip] at heq
    rcases word with _ | ⟨c, _ | ⟨d, word⟩⟩
    · exact hname.elim
    · obtain ⟨-, rfl⟩ := List.cons.inj heq
      exact absurd hopens hnot
    · obtain ⟨-, rfl⟩ := List.cons.inj heq
      have hd := startsToken_of_continuesName (hname.2 d List.mem_cons_self)
      have hsplit : NameText ([c] ++ d :: word) (skip mid) after := hword
      have hrest : skip (d :: word ++ after) = d :: word ++ after := skip_token hd
      have := points_of_word follows_lastNode hcall hsplit hopens hfail
      rw [← hrest] at this
      exact this

theorem points_after_call {L : Language} {cs q mid rest : List Char}
    (hcall : GapCall cs (q ++ mid)) (hne : q ≠ [])
    (hq : ∀ cs, Parser.NoArg (q ++ cs) ∧ ¬Opens (q ++ cs)) (h : Points L mid rest)
    (tail : List Char)
    (hcompletes : ∀ cs rest, L cs (tail ++ rest) → LastNode (q ++ cs) rest)
    (hbreaks : ∀ cs rest, LastNode (q ++ cs) rest → ∃ mid, L cs mid) :
    Points (CallThen LastNode) cs rest := by
  -- A call and a start of the last node are read, but not what is to follow them.
  obtain ⟨before, rfl, hbefore⟩ := hcall.exists_prefix
  have hsame (cs : List Char) : GapCall (before ++ (q ++ cs)) (q ++ cs) := by
    apply hbefore
    · exact nameEnds_congr (head?_append_congr hne ..)
    · exact fun h => absurd h (hq cs).2
  refine h.lift (before ++ q) tail (by simp) ?_ ?_
  · intro cs rest h
    rw [List.append_assoc]
    exact ⟨q ++ cs, hsame cs, hcompletes cs rest h⟩
  · rintro cs rest ⟨mid', hcall', hlast⟩
    rw [List.append_assoc] at hcall'
    obtain rfl := (hsame cs).unique (hq cs).1 hcall' (follows_lastNode.noArg hlast)
    exact hbreaks cs rest hlast

theorem points_of_inside {cs mid tail paren rest : List Char} {kind : Parser.Kind}
    (hcall : GapCall cs mid) (hskip : skip mid = kind.letter :: tail)
    (hparen : Gap tail ('(' :: paren)) (h : Points (Inside kind) paren rest) :
    Points (CallThen LastNode) cs rest := by
  obtain ⟨gap, rfl, hgap⟩ := exists_gap hskip
  obtain ⟨gap', rfl, hgap'⟩ := hparen.exchange (by decide)
  have hletter : IsName [kind.letter] := by
    cases kind <;> decide
  have htext (cs : List Char) : gap ++ kind.letter :: gap' ++ ['('] ++ cs =
      gap ++ ([kind.letter] ++ (gap' ++ '(' :: cs)) := by simp
  have hnode (cs rest : List Char) :
      GapNode (gap ++ ([kind.letter] ++ (gap' ++ '(' :: cs))) rest ↔ Inside kind cs rest := by
    rw [← opened_paren hgap']
    exact gapNode_letter hgap _ rest
  obtain ⟨last, hlast⟩ := part_closing.exists_text
  have hbefore : GapCall cs (gap ++ kind.letter :: gap' ++ ['('] ++ paren) := by
    rw [htext]
    exact hcall
  apply points_after_call hbefore (by simp) ?_ h last
  · intro cs rest hinside
    rw [htext]
    exact ⟨last ++ rest, (hnode cs _).mpr hinside, hlast rest⟩
  · rintro cs rest ⟨mid, hmid, -⟩
    rw [htext] at hmid
    exact ⟨mid, (hnode cs mid).mp hmid⟩
  · intro cs
    obtain ⟨hstart, hopens⟩ := skip_word hletter hgap (gap' ++ '(' :: cs)
    have hends : NameEnds (gap' ++ '(' :: cs) := .of_gap (hgap' _) (by decide)
    rw [htext]
    exact ⟨noArg_of_word ⟨hletter, hstart, hends⟩ ⟨cs, hgap' _⟩, hopens⟩

end Grammar

end BattleTree
