import BattleTree.Proofs.Program.Viability

/-!
This module contains the parts of programs as languages: nodes with the blanks and comments before
them, lists of siblings and calls, each with what comes after it up to the closing parenthesis.
-/

namespace BattleTree

open Lexeme

namespace Grammar

def Siblings (cs rest : List Char) : Prop :=
  ∃ ts mid, SiblingsText (fun _ => ()) ts cs mid ∧ Closing mid rest

theorem siblings_iff {cs rest : List Char} : Siblings cs rest ↔
    Closing cs rest ∨
      ∃ start mid, Gap cs (':' :: ':' :: start) ∧ GapNode start mid ∧ Siblings mid rest := by
  constructor
  · rintro ⟨ts, mid, hsiblings, hclose⟩
    cases hsiblings with
    | nil => exact .inl hclose
    | cons hcolons hgap hnode hsiblings =>
      exact .inr ⟨_, _, hcolons, ⟨_, _, hgap, hnode⟩, _, _, hsiblings, hclose⟩
  · rintro (hclose | ⟨start, mid, hcolons, ⟨_, _, hgap, hnode⟩, _, _, hsiblings, hclose⟩)
    · exact ⟨[], cs, .nil cs, hclose⟩
    · exact ⟨_, _, .cons hcolons hgap hnode hsiblings, hclose⟩

theorem siblings_colons {gap : List Char} (hgap : ∀ rest, Gap (gap ++ rest) rest)
    (cs rest : List Char) : Siblings (gap ++ ':' :: ':' :: cs) rest ↔
      ∃ mid, GapNode cs mid ∧ Siblings mid rest := by
  have hskip := skip_eq_of_gap_token (hgap (':' :: ':' :: cs)) (by decide)
  rw [siblings_iff]
  constructor
  · rintro (hclose | ⟨start, mid, hcolons, hnode⟩)
    · rw [skip_eq_of_gap_token hclose (by decide)] at hskip
      exact absurd (List.cons.inj hskip).1 (by decide)
    · rw [skip_eq_of_gap_token hcolons (by decide)] at hskip
      obtain ⟨-, rfl⟩ := List.cons.inj (List.cons.inj hskip).2
      exact ⟨mid, hnode⟩
  · rintro ⟨mid, hnode⟩
    exact .inr ⟨cs, mid, hgap _, hnode⟩

def Children (cs rest : List Char) : Prop :=
  ∃ start ts mid, Gap cs start ∧ NodesText (fun _ => ()) ts start mid ∧ Closing mid rest

theorem children_iff {cs rest : List Char} :
    Children cs rest ↔ Closing cs rest ∨ ∃ mid, GapNode cs mid ∧ Siblings mid rest := by
  constructor
  · rintro ⟨start, ts, mid, hgap, hnodes, hclose⟩
    cases hnodes with
    | nil => exact .inl (hgap.trans hclose)
    | cons hnode hsiblings => exact .inr ⟨_, ⟨_, _, hgap, hnode⟩, _, _, hsiblings, hclose⟩
  · rintro (hclose | ⟨_, ⟨_, _, hgap, hnode⟩, _, _, hsiblings, hclose⟩)
    · exact ⟨cs, [], cs, .none cs, .nil cs, hclose⟩
    · exact ⟨_, _, _, hgap, .cons hnode hsiblings, hclose⟩

def LastNode (cs rest : List Char) : Prop :=
  ∃ mid, GapNode cs mid ∧ Closing mid rest

def GapCall (cs rest : List Char) : Prop :=
  ∃ start call, Gap cs start ∧ CallText call start rest

def CallThen (K : Language) (cs rest : List Char) : Prop :=
  ∃ mid, GapCall cs mid ∧ K mid rest

def Inside : Parser.Kind → Language
  | .sequence | .fallback => Children
  | .action | .condition => CallThen Closing
  | .decorator => CallThen LastNode

def Opened (kind : Parser.Kind) (cs rest : List Char) : Prop :=
  ∃ paren, Gap cs ('(' :: paren) ∧ Inside kind paren rest

theorem gapNode_iff {cs rest : List Char} : GapNode cs rest ↔
    ∃ (kind : Parser.Kind) (tail : List Char), Gap cs (kind.letter :: tail) ∧
      Opened kind tail rest := by
  constructor
  · rintro ⟨start, t, hgap, hnode⟩
    cases hnode with
    | sequence hopen hnodes hclose =>
      obtain ⟨paren, hparen, hstart⟩ := hopen
      exact ⟨.sequence, _, hgap, paren, hparen, _, _, _, hstart, hnodes, hclose⟩
    | fallback hopen hnodes hclose =>
      obtain ⟨paren, hparen, hstart⟩ := hopen
      exact ⟨.fallback, _, hgap, paren, hparen, _, _, _, hstart, hnodes, hclose⟩
    | action hopen hcall hclose =>
      obtain ⟨paren, hparen, hstart⟩ := hopen
      exact ⟨.action, _, hgap, paren, hparen, _, ⟨_, _, hstart, hcall⟩, hclose⟩
    | condition hopen hcall hclose =>
      obtain ⟨paren, hparen, hstart⟩ := hopen
      exact ⟨.condition, _, hgap, paren, hparen, _, ⟨_, _, hstart, hcall⟩, hclose⟩
    | decorator hopen hcall hinner hnode hclose =>
      obtain ⟨paren, hparen, hstart⟩ := hopen
      exact ⟨.decorator, _, hgap, paren, hparen, _, ⟨_, _, hstart, hcall⟩, _,
        ⟨_, _, hinner, hnode⟩, hclose⟩
  · rintro ⟨kind, tail, hgap, paren, hparen, hinside⟩
    cases kind with
    | sequence =>
      obtain ⟨start, ts, mid, hstart, hnodes, hclose⟩ := hinside
      exact ⟨_, _, hgap, .sequence ⟨paren, hparen, hstart⟩ hnodes hclose⟩
    | fallback =>
      obtain ⟨start, ts, mid, hstart, hnodes, hclose⟩ := hinside
      exact ⟨_, _, hgap, .fallback ⟨paren, hparen, hstart⟩ hnodes hclose⟩
    | action =>
      obtain ⟨mid, ⟨start, call, hstart, hcall⟩, hclose⟩ := hinside
      exact ⟨_, _, hgap, .action ⟨paren, hparen, hstart⟩ hcall hclose⟩
    | condition =>
      obtain ⟨mid, ⟨start, call, hstart, hcall⟩, hclose⟩ := hinside
      exact ⟨_, _, hgap, .condition ⟨paren, hparen, hstart⟩ hcall hclose⟩
    | decorator =>
      obtain ⟨mid, ⟨start, call, hstart, hcall⟩, last, ⟨inner, t, hinner, hnode⟩, hclose⟩ := hinside
      exact ⟨_, _, hgap, .decorator ⟨paren, hparen, hstart⟩ hcall hinner hnode hclose⟩

theorem gapNode_letter {kind : Parser.Kind} {gap : List Char}
    (hgap : ∀ rest, Gap (gap ++ rest) rest) (cs rest : List Char) :
    GapNode (gap ++ kind.letter :: cs) rest ↔ Opened kind cs rest := by
  rw [gapNode_iff]
  constructor
  · rintro ⟨other, tail, hother, hopened⟩
    have heq := skip_eq_of_gap_token hother (startsToken_letter other)
    rw [skip_eq_of_gap_token (hgap _) (startsToken_letter kind)] at heq
    obtain ⟨hletter, rfl⟩ := List.cons.inj heq
    have hkind : other = kind := by
      cases kind <;> cases other <;> first | rfl | exact absurd hletter (by decide)
    rw [← hkind]
    exact hopened
  · intro h
    exact ⟨kind, cs, hgap _, h⟩

theorem opened_paren {kind : Parser.Kind} {gap : List Char}
    (hgap : ∀ rest, Gap (gap ++ rest) rest) (cs rest : List Char) :
    Opened kind (gap ++ '(' :: cs) rest ↔ Inside kind cs rest := by
  constructor
  · rintro ⟨paren, hparen, hinside⟩
    have heq := skip_eq_of_gap_token hparen (by decide)
    rw [skip_eq_of_gap_token (hgap _) (by decide)] at heq
    obtain ⟨-, rfl⟩ := List.cons.inj heq
    exact hinside
  · intro hinside
    exact ⟨cs, hgap _, hinside⟩

theorem GapNode.of_gap {cs start rest : List Char} (hgap : Gap cs start) (h : GapNode start rest) :
    GapNode cs rest := by
  obtain ⟨inner, t, hinner, hnode⟩ := h
  exact ⟨inner, t, hgap.trans hinner, hnode⟩

theorem GapNode.starts {cs rest : List Char} (h : GapNode cs rest) :
    ∃ c ∈ (skip cs).head?, ∃ kind : Parser.Kind, c = kind.letter := by
  obtain ⟨kind, tail, hgap, -⟩ := gapNode_iff.mp h
  rw [skip_eq_of_gap_token hgap (startsToken_letter kind)]
  exact ⟨kind.letter, rfl, kind, rfl⟩

theorem GapNode.noArg {cs rest : List Char} (h : GapNode cs rest) : Parser.NoArg cs := by
  obtain ⟨start, t, hgap, hnode⟩ := h
  exact Parser.noArg_of_node hgap hnode

theorem GapNode.unique {cs rest rest' : List Char} (h : GapNode cs rest) (h' : GapNode cs rest') :
    rest = rest' := by
  obtain ⟨start, t, hgap, hnode⟩ := h
  obtain ⟨start', t', hgap', hnode'⟩ := h'
  obtain rfl : start = start' := by
    rw [← Parser.skip_of_node hgap hnode, ← Parser.skip_of_node hgap' hnode']
  exact (hnode.unique hnode').2

theorem GapNode.suffix {cs rest : List Char} (h : GapNode cs rest) : rest <:+ cs := by
  obtain ⟨start, t, hgap, hnode⟩ := h
  exact hnode.suffix.trans hgap.suffix

theorem GapNode.exists_prefix {cs rest : List Char} (h : GapNode cs rest) :
    ∃ q, cs = q ++ rest ∧ ∀ rest', GapNode (q ++ rest') rest' := by
  obtain ⟨start, t, hgap, hnode⟩ := h
  obtain ⟨kind, tail, _, rfl, -⟩ := hnode.starts
  obtain ⟨gap, rfl, hgap'⟩ := hgap.exchange (startsToken_letter kind).ne_newline
  obtain ⟨q, -, heq, hq⟩ := hnode.exchangeable
  rw [heq]
  refine ⟨gap ++ q, by simp, ?_⟩
  intro rest'
  rw [List.append_assoc]
  exact ⟨_, t, hgap' _, hq rest'⟩

theorem GapCall.unique {cs mid mid' : List Char} (h : GapCall cs mid) (hmid : Parser.NoArg mid)
    (h' : GapCall cs mid') (hmid' : Parser.NoArg mid') : mid = mid' := by
  obtain ⟨start, c, hgap, hcall⟩ := h
  obtain ⟨start', c', hgap', hcall'⟩ := h'
  obtain rfl : start = start' := by
    rw [← Parser.skip_of_callText hgap hcall, ← Parser.skip_of_callText hgap' hcall']
  have heq := Parser.call_of_callText hcall hmid
  rw [Parser.call_of_callText hcall' hmid'] at heq
  exact (Prod.mk.inj (Except.ok.inj heq)).2.symm

theorem GapCall.exists_prefix {cs mid : List Char} (h : GapCall cs mid) :
    ∃ q, cs = q ++ mid ∧ ∀ rest, (NameEnds mid → NameEnds rest) → (Opens rest → Opens mid) →
      GapCall (q ++ rest) rest := by
  obtain ⟨start, c, hgap, hcall⟩ := h
  obtain ⟨q, heq, hq⟩ := hcall.extend
  cases hcall with
  | mk hname =>
    obtain ⟨d, tail, rfl, hd, -⟩ := hname.startsToken
    obtain ⟨gap, rfl, hgap'⟩ := hgap.exchange hd.ne_newline
    rw [heq]
    refine ⟨gap ++ q, by simp, ?_⟩
    intro rest hends hopens
    rw [List.append_assoc]
    exact ⟨_, _, hgap' _, hq rest hends hopens⟩

theorem part_closing : Part Closing (· = ')') := by
  constructor
  · intro cs start rest hgap h
    exact hgap.trans h
  · intro cs rest h
    rw [skip_eq_of_gap_token h (by decide)]
    exact ⟨')', rfl, rfl⟩
  · exact ⟨[')'], fun rest => .none _⟩

def IsLetter (c : Char) : Prop :=
  ∃ kind : Parser.Kind, c = kind.letter

theorem startsName_of_isLetter {c : Char} (h : IsLetter c) : startsName c = true := by
  obtain ⟨kind, rfl⟩ := h
  cases kind <;> decide

theorem part_gapNode : Part GapNode IsLetter := by
  constructor
  · exact GapNode.of_gap
  · exact GapNode.starts
  · exact ⟨['S', '(', ')'], fun rest =>
      ⟨_, _, .none _, .sequence ⟨_, .none _, .none _⟩ (.nil _) (.none _)⟩⟩

theorem Siblings.of_gap {cs start rest : List Char} (hgap : Gap cs start)
    (h : Siblings start rest) : Siblings cs rest := by
  rw [siblings_iff] at h ⊢
  rcases h with hclose | ⟨colons, mid, hcolons, hnode⟩
  · exact .inl (hgap.trans hclose)
  · exact .inr ⟨colons, mid, hgap.trans hcolons, hnode⟩

theorem Children.of_gap {cs start rest : List Char} (hgap : Gap cs start)
    (h : Children start rest) : Children cs rest := by
  obtain ⟨first, ts, mid, hfirst, hnodes⟩ := h
  exact ⟨first, ts, mid, hgap.trans hfirst, hnodes⟩

theorem GapCall.of_gap {cs start rest : List Char} (hgap : Gap cs start) (h : GapCall start rest) :
    GapCall cs rest := by
  obtain ⟨name, call, hname, hcall⟩ := h
  exact ⟨name, call, hgap.trans hname, hcall⟩

theorem part_children : Part Children fun c => c = ')' ∨ IsLetter c := by
  constructor
  · exact Children.of_gap
  · intro cs rest h
    rcases children_iff.mp h with hclose | ⟨mid, hnode, -⟩
    · obtain ⟨c, hc, hA⟩ := part_closing.starts hclose
      exact ⟨c, hc, .inl hA⟩
    · obtain ⟨c, hc, hA⟩ := part_gapNode.starts hnode
      exact ⟨c, hc, .inr hA⟩
  · obtain ⟨tail, htail⟩ := part_closing.exists_text
    exact ⟨tail, fun rest => children_iff.mpr (.inl (htail rest))⟩

theorem part_siblings : Part Siblings fun c => c = ')' ∨ c = ':' := by
  constructor
  · exact Siblings.of_gap
  · intro cs rest h
    rcases siblings_iff.mp h with hclose | ⟨start, mid, hcolons, -⟩
    · obtain ⟨c, hc, hA⟩ := part_closing.starts hclose
      exact ⟨c, hc, .inl hA⟩
    · rw [skip_eq_of_gap_token hcolons (by decide)]
      exact ⟨':', rfl, .inr rfl⟩
  · obtain ⟨tail, htail⟩ := part_closing.exists_text
    exact ⟨tail, fun rest => siblings_iff.mpr (.inl (htail rest))⟩

theorem part_lastNode : Part LastNode IsLetter := by
  constructor
  · rintro cs start rest hgap ⟨mid, hnode, hclose⟩
    exact ⟨mid, hnode.of_gap hgap, hclose⟩
  · rintro cs rest ⟨mid, hnode, -⟩
    exact hnode.starts
  · obtain ⟨tail, htail⟩ := part_gapNode.exists_text
    obtain ⟨last, hlast⟩ := part_closing.exists_text
    refine ⟨tail ++ last, fun rest => ⟨last ++ rest, ?_, hlast rest⟩⟩
    rw [List.append_assoc]
    exact htail (last ++ rest)

theorem Part.exists_line {L : Language} {A : Char → Prop} (hL : Part L A) :
    ∃ tail, ∀ rest, L ('\n' :: (tail ++ rest)) rest := by
  obtain ⟨tail, htail⟩ := hL.exists_text
  exact ⟨tail, fun rest => hL.of_gap (.blank (by decide) (.none _)) (htail rest)⟩

theorem GapCall.starts {cs rest : List Char} (h : GapCall cs rest) :
    ∃ c ∈ (skip cs).head?, startsName c = true := by
  obtain ⟨start, call, hgap, hcall⟩ := h
  rw [Parser.skip_of_callText hgap hcall]
  cases hcall with
  | @mk name args _ mid _ hname _ =>
    obtain ⟨hname, rfl, -⟩ := hname
    cases name with
    | nil => exact hname.elim
    | cons c name => exact ⟨c, rfl, hname.1⟩

theorem gapCall_x (rest : List Char) : GapCall ('x' :: '\n' :: rest) ('\n' :: rest) := by
  have hends : NameEnds ('\n' :: rest) := by
    intro c hc
    obtain rfl := Option.some.inj hc
    decide
  have hname : IsName ['x'] := by decide
  exact ⟨_, _, .none _, .mk ⟨hname, rfl, hends⟩ (.nil _)⟩

theorem part_callThen {K : Language} {A : Char → Prop} (hK : Part K A) :
    Part (CallThen K) (startsName · = true) := by
  constructor
  · rintro cs start rest hgap ⟨mid, hcall, hrest⟩
    exact ⟨mid, hcall.of_gap hgap, hrest⟩
  · rintro cs rest ⟨mid, hcall, -⟩
    exact hcall.starts
  · obtain ⟨tail, htail⟩ := hK.exists_line
    exact ⟨'x' :: '\n' :: tail, fun rest => ⟨_, gapCall_x _, htail rest⟩⟩

theorem exists_text_inside (kind : Parser.Kind) :
    ∃ tail, ∀ rest, Inside kind (tail ++ rest) rest := by
  cases kind with
  | sequence | fallback => exact part_children.exists_text
  | action | condition => exact (part_callThen part_closing).exists_text
  | decorator => exact (part_callThen part_lastNode).exists_text

theorem part_opened (kind : Parser.Kind) : Part (Opened kind) (· = '(') := by
  constructor
  · rintro cs start rest hgap ⟨paren, hparen, hinside⟩
    exact ⟨paren, hgap.trans hparen, hinside⟩
  · rintro cs rest ⟨paren, hparen, -⟩
    rw [skip_eq_of_gap_token hparen (by decide)]
    exact ⟨'(', rfl, rfl⟩
  · obtain ⟨tail, htail⟩ := exists_text_inside kind
    exact ⟨'(' :: tail, fun rest => ⟨_, .none _, htail rest⟩⟩

theorem points_siblings {cs : List Char} (hclose : ∀ c ∈ (skip cs).head?, c ≠ ')')
    (hcolons : ∀ start, skip cs ≠ ':' :: ':' :: start) : Points Siblings cs (skip cs) := by
  -- No sibling comes next. A single colon could still have been the first one of two.
  by_cases hcolon : ∃ after, skip cs = ':' :: after
  · obtain ⟨after, hskip⟩ := hcolon
    obtain ⟨gap, rfl, hresumes⟩ := exists_gap hskip
    obtain ⟨tail, htail⟩ := part_gapNode.exists_text
    obtain ⟨last, hlast⟩ := part_siblings.exists_text
    refine ⟨gap, [':'], after, rfl, hskip, Piece.colon.excess after,
      ⟨':' :: (tail ++ last), ?_⟩, ?_⟩
    · intro rest
      have := (siblings_colons hresumes _ rest).mpr ⟨_, htail (last ++ rest), hlast rest⟩
      simpa using this
    · intro c hc next rest h
      have hskip' : skip (gap ++ ([':'] ++ c :: next)) = ':' :: c :: next :=
        skip_eq_of_gap_token (hresumes _) (by decide)
      rcases siblings_iff.mp h with h | ⟨start, _, h, -⟩
      · rw [skip_eq_of_gap_token h (by decide)] at hskip'
        exact absurd (List.cons.inj hskip').1 (by decide)
      · rw [skip_eq_of_gap_token h (by decide)] at hskip'
        obtain ⟨rfl, -⟩ := List.cons.inj (List.cons.inj hskip').2
        obtain ⟨after, rfl⟩ : ∃ cs, after = ':' :: cs := ⟨_, List.eq_cons_of_mem_head? hc⟩
        exact hcolons after hskip
  · apply part_siblings.points
    rintro c hc (rfl | rfl)
    · exact hclose _ hc rfl
    · exact hcolon ⟨_, List.eq_cons_of_mem_head? hc⟩

theorem points_opened {kind : Parser.Kind} {tail paren rest : List Char}
    (hparen : Gap tail ('(' :: paren)) (h : Points (Inside kind) paren rest) :
    Points (Opened kind) tail rest := by
  obtain ⟨gap, rfl, hgap⟩ := hparen.exchange (by decide)
  refine h.lift (gap ++ ['(']) [] (by simp) ?_ ?_
  · intro cs rest hinside
    rw [List.append_assoc]
    exact (opened_paren hgap cs rest).mpr hinside
  · intro cs rest hopened
    rw [List.append_assoc] at hopened
    exact ⟨rest, (opened_paren hgap cs rest).mp hopened⟩

theorem points_after_node {L L' : Language} {text cs mid rest : List Char}
    (hnode : GapNode cs mid) (h : Points L mid rest) (before : List Char)
    (htext : text = before ++ cs)
    (hL' : ∀ {cs last : List Char}, GapNode cs last → ∀ rest,
      L' (before ++ cs) rest ↔ ∃ mid, GapNode cs mid ∧ L mid rest) : Points L' text rest := by
  obtain ⟨q, rfl, hq⟩ := hnode.exists_prefix
  refine h.lift (before ++ q) [] (by simp [htext]) ?_ ?_
  · intro cs rest hrest
    rw [List.append_assoc]
    exact (hL' (hq cs) rest).mpr ⟨cs, hq cs, hrest⟩
  · intro cs rest h
    rw [List.append_assoc] at h
    obtain ⟨mid, hmid, hrest⟩ := (hL' (hq cs) rest).mp h
    obtain rfl := (hq cs).unique hmid
    exact ⟨rest, hrest⟩

end Grammar

end BattleTree
