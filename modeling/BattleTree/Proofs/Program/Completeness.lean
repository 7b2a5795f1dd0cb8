import BattleTree.Proofs.Program.Extent

/-!
This module contains the completeness of the parser: it reads every tree that the grammar derives,
unless the tree has more levels than the parser was given. Arguments and children are read as long
as there are any, which is never too long, because what comes after them in a derivation starts
neither an argument nor a double colon.
-/

namespace BattleTree

open Grammar Lexeme

namespace Parser

theorem expect_of_gap {c : Char} {cs rest : List Char} (hc : StartsToken c)
    (h : Gap cs (c :: rest)) : expect c cs = .ok rest := by
  unfold expect
  rw [skip_eq_of_gap_token h hc]
  simp

structure NoArg (cs : List Char) : Prop where
  not_quote : ∀ body, skip cs ≠ '"' :: body
  not_word : word? (skip cs) = none

theorem noArg_of_closing {cs rest : List Char} (h : Closing cs rest) : NoArg cs := by
  have hskip := skip_eq_of_gap_token h (by decide)
  constructor
  · intro body
    rw [hskip]
    simp
  · rw [hskip]
    rfl

theorem word?_letter {kind : Kind} {cs start : List Char} (h : Opening cs start) :
    word? (kind.letter :: cs) = none := by
  obtain ⟨paren, hparen, -⟩ := h
  have hends : NameEnds cs := .of_gap hparen (by decide)
  have hname : NameText [kind.letter] (kind.letter :: cs) cs := by
    refine ⟨⟨?_, by simp⟩, rfl, hends⟩
    cases kind <;> rfl
  cases hword : word? (kind.letter :: cs) with
  | none => rfl
  | some found =>
    obtain ⟨word, rest⟩ := found
    obtain ⟨hother, hopens⟩ := word?_eq_some_iff.mp hword
    -- The letter is the whole name, and the parenthesis comes right after it.
    have heq : some (word, rest) = some ([kind.letter], cs) := by
      rw [← name?_eq_some_iff.mpr hother, ← name?_eq_some_iff.mpr hname]
    obtain ⟨rfl, rfl⟩ := Prod.mk.inj (Option.some.inj heq)
    exact absurd ⟨paren, hparen⟩ hopens

theorem skip_of_node {σ : Type} {mark : Nat → σ} {t : SyntaxTree σ} {cs inner rest : List Char}
    (hgap : Gap cs inner) (h : NodeText mark t inner rest) : skip cs = inner := by
  obtain ⟨kind, tail, start, rfl, -⟩ := h.starts
  exact skip_eq_of_gap_token hgap (startsToken_letter kind)

theorem noArg_of_node {σ : Type} {mark : Nat → σ} {t : SyntaxTree σ} {cs inner rest : List Char}
    (hgap : Gap cs inner) (h : NodeText mark t inner rest) : NoArg cs := by
  obtain ⟨kind, tail, start, rfl, hopen⟩ := h.starts
  have hskip := skip_eq_of_gap_token hgap (startsToken_letter kind)
  constructor
  · intro body
    rw [hskip]
    cases kind <;> simp [Kind.letter]
  · rw [hskip]
    exact word?_letter hopen

theorem argsFrom_quoted {fuel : Nat} {cs body text rest : List Char} (hskip : skip cs = '"' :: body)
    (hquoted : quoted? body = some (text, rest)) :
    argsFrom (fuel + 1) cs = (do
      let (args, rest) ← argsFrom fuel rest
      return (.quoted (String.ofList text) :: args, rest)) := by
  rw [argsFrom]
  split
  · next body' hskip' =>
    obtain rfl : body' = body := by simpa [hskip] using hskip'.symm
    rw [hquoted]
  · next hne => exact absurd hskip (hne body)

theorem argsFrom_open {fuel : Nat} {cs body : List Char} (hskip : skip cs = '"' :: body)
    (hquoted : quoted? body = none) : argsFrom (fuel + 1) cs = .error ⟨[], .char '"'⟩ := by
  rw [argsFrom]
  split
  · next body' hskip' =>
    obtain rfl : body' = body := by simpa [hskip] using hskip'.symm
    rw [hquoted]
  · next hne => exact absurd hskip (hne body)

theorem argsFrom_word {fuel : Nat} {cs word rest : List Char}
    (hword : word? (skip cs) = some (word, rest)) :
    argsFrom (fuel + 1) cs = (do
      let (args, rest) ← argsFrom fuel rest
      return (Arg.ofWord word :: args, rest)) := by
  rw [argsFrom]
  split
  · next hskip =>
    rw [hskip] at hword
    simp [word?, name?, startsName] at hword
  · rw [hword]

theorem argsFrom_stop (fuel : Nat) {cs : List Char} (h : NoArg cs) :
    argsFrom fuel cs = .ok ([], cs) := by
  cases fuel with
  | zero => rfl
  | succ fuel =>
    rw [argsFrom]
    split
    · next hskip => exact absurd hskip (h.not_quote _)
    · rw [h.not_word]

theorem argsFrom_of_argsText {fuel : Nat} {args : List Arg} {cs rest : List Char}
    (h : ArgsText args cs rest) (hstop : NoArg rest) (hfuel : cs.length ≤ fuel) :
    argsFrom fuel cs = .ok (args, rest) := by
  induction h generalizing fuel with
  | nil => exact argsFrom_stop fuel hstop
  | @cons arg args cs start mid rest hgap harg _ ih =>
    have := hgap.suffix.length_le
    have := harg.length_lt
    obtain ⟨c, tail, rfl, hc, -⟩ := harg.startsToken
    have hskip := skip_eq_of_gap_token hgap hc
    -- Every argument takes a character, so the fuel is enough for all of them.
    obtain ⟨fuel, rfl⟩ : ∃ n, fuel = n + 1 := ⟨fuel - 1, by omega⟩
    have hlength : mid.length ≤ fuel := by omega
    have hrest := ih hstop hlength
    cases harg with
    | word hname hopens hnone =>
      have hword := word?_eq_some_iff.mpr ⟨hname, hopens⟩
      rw [← hskip] at hword
      rw [argsFrom_word hword, hrest, Arg.ofWord, hnone]
      rfl
    | ref hname hopens href =>
      have hword := word?_eq_some_iff.mpr ⟨hname, hopens⟩
      rw [← hskip] at hword
      rw [argsFrom_word hword, hrest, Arg.ofWord, href]
      rfl
    | quoted htext =>
      rw [argsFrom_quoted hskip (quoted?_eq_some_iff.mpr ⟨htext, rfl⟩), hrest]
      rfl

theorem call_of_callText {c : Call} {cs rest : List Char} (h : CallText c cs rest)
    (hstop : NoArg rest) : call cs = .ok (c, rest) := by
  cases h with
  | mk hname hargs =>
    unfold call args
    rw [name?_eq_some_iff.mpr hname]
    dsimp only
    rw [argsFrom_of_argsText hargs hstop (Nat.le_refl _)]
    rfl

theorem skip_of_callText {c : Call} {cs start rest : List Char} (hgap : Gap cs start)
    (h : CallText c start rest) : skip cs = start := by
  cases h with
  | mk hname =>
    obtain ⟨c, tail, rfl, hc, -⟩ := hname.startsToken
    exact skip_eq_of_gap_token hgap hc

section

variable {σ : Type} {mark : Nat → σ} {levels : Nat} {child : Reader (SyntaxTree Nat)}

def Complete (mark : Nat → σ) (levels : Nat) (child : Reader (SyntaxTree Nat)) : Prop :=
  ∀ {t : SyntaxTree σ} {cs rest : List Char}, NodeText mark t cs rest → t.depth ≤ levels →
    ∃ u, child cs = .ok (u, rest) ∧ u.map mark = t

theorem siblingsFrom_stop (child : Reader (SyntaxTree Nat)) (fuel : Nat) {cs rest : List Char}
    (h : Closing cs rest) : siblingsFrom child fuel cs = .ok ([], cs) := by
  cases fuel with
  | zero => rfl
  | succ fuel =>
    have hskip := skip_eq_of_gap_token h (by decide)
    unfold siblingsFrom
    rw [hskip]
    simp

theorem siblingsFrom_next {fuel : Nat} {t : SyntaxTree Nat} {ts : List (SyntaxTree Nat)}
    {cs start mid rest : List Char} (hskip : skip cs = ':' :: ':' :: start)
    (hfirst : child (skip start) = .ok (t, mid))
    (hothers : siblingsFrom child fuel mid = .ok (ts, rest)) :
    siblingsFrom child (fuel + 1) cs = .ok (t :: ts, rest) := by
  unfold siblingsFrom
  split
  · next start' hskip' =>
    obtain rfl : start' = start := by simpa [hskip] using hskip'.symm
    rw [hfirst]
    dsimp only [bind, Except.bind]
    rw [hothers]
    rfl
  · next hne => exact absurd hskip (hne start)

theorem siblingsFrom_of_siblingsText (hchild : Complete mark levels child) {fuel : Nat}
    {ts : List (SyntaxTree σ)} {cs mid rest : List Char} (h : SiblingsText mark ts cs mid)
    (hclose : Closing mid rest) (hdepth : SyntaxTree.depthAll ts ≤ levels)
    (hfuel : cs.length ≤ fuel) :
    ∃ us, siblingsFrom child fuel cs = .ok (us, mid) ∧ SyntaxTree.mapAll mark us = ts := by
  induction ts generalizing fuel cs with
  | nil =>
    cases h
    exact ⟨[], siblingsFrom_stop child fuel hclose, rfl⟩
  | cons t ts ih =>
    cases h with
    | @cons _ _ _ start inner next _ hcolons hgap hnode hsiblings =>
      rw [SyntaxTree.depthAll, Nat.max_le] at hdepth
      have hlength : cs.length ≥ start.length + 2 := hcolons.suffix.length_le
      have := hgap.suffix.length_le
      have := hnode.length_lt
      obtain ⟨fuel, rfl⟩ : ∃ n, fuel = n + 1 := ⟨fuel - 1, by omega⟩
      obtain ⟨u, hu, rfl⟩ := hchild hnode hdepth.1
      have hnext : next.length ≤ fuel := by omega
      obtain ⟨us, hus, rfl⟩ := ih hsiblings hdepth.2 hnext
      rw [← skip_of_node hgap hnode] at hu
      have hskip := skip_eq_of_gap_token hcolons (by decide)
      exact ⟨u :: us, siblingsFrom_next hskip hu hus, rfl⟩

theorem children_of_nodesText (hchild : Complete mark levels child) {ts : List (SyntaxTree σ)}
    {cs start mid rest : List Char} (hgap : Gap cs start) (h : NodesText mark ts start mid)
    (hclose : Closing mid rest) (hdepth : SyntaxTree.depthAll ts ≤ levels) :
    ∃ us last, children child (skip cs) = .ok (us, last) ∧ Closing last rest ∧
      SyntaxTree.mapAll mark us = ts := by
  cases h with
  | nil =>
    -- The gap is left in front of the parenthesis, but the parser has skipped it already.
    have hskip := skip_eq_of_gap_token (hgap.trans hclose) (by decide)
    refine ⟨[], skip cs, ?_, ?_, rfl⟩
    · unfold children
      rw [hskip, skip_token (by decide)]
      rfl
    · rw [hskip]
      exact .none _
  | @cons t ts _ next _ hnode hsiblings =>
    rw [SyntaxTree.depthAll, Nat.max_le] at hdepth
    obtain ⟨u, hu, rfl⟩ := hchild hnode hdepth.1
    obtain ⟨us, hus, rfl⟩ :=
      siblingsFrom_of_siblingsText hchild hsiblings hclose hdepth.2 (Nat.le_refl next.length)
    refine ⟨u :: us, mid, ?_, hclose, rfl⟩
    obtain ⟨kind, tail, _, rfl, -⟩ := hnode.starts
    have hskip := skip_eq_of_gap_token hgap (startsToken_letter kind)
    unfold children
    rw [hskip, skip_token (startsToken_letter kind)]
    split
    · next heq => cases kind <;> simp [Kind.letter] at heq
    · rw [hu]
      dsimp only [bind, Except.bind]
      rw [hus]
      rfl

theorem node_of_body (kind : Kind) {u : SyntaxTree Nat} {cs paren mid rest : List Char}
    (hparen : Gap cs ('(' :: paren))
    (hbody : body (node levels) kind (kind.letter :: cs).length (skip paren) = .ok (u, mid))
    (hclose : Closing mid rest) : node (levels + 1) (kind.letter :: cs) = .ok (u, rest) := by
  unfold node
  dsimp only
  rw [Kind.ofChar?_eq_some_iff.mpr rfl]
  dsimp only
  rw [expect_of_gap (by decide) hparen]
  dsimp only [bind, Except.bind]
  rw [hbody]
  dsimp only
  rw [expect_of_gap (by decide) hclose]
  rfl

theorem complete_node (mark : Nat → σ) (levels : Nat) : Complete mark levels (node levels) := by
  induction levels with
  | zero =>
    intro t cs rest _ hdepth
    cases t <;> simp [SyntaxTree.depth] at hdepth
  | succ levels ih =>
    intro t cs rest h hdepth
    cases h with
    | sequence hopen hnodes hclose =>
      obtain ⟨paren, hparen, hgap⟩ := hopen
      rw [SyntaxTree.depth] at hdepth
      obtain ⟨us, last, hus, hlast, rfl⟩ := children_of_nodesText ih hgap hnodes hclose (by omega)
      refine ⟨.sequence _ us, node_of_body .sequence hparen ?_ hlast, rfl⟩
      rw [body, hus]
      rfl
    | fallback hopen hnodes hclose =>
      obtain ⟨paren, hparen, hgap⟩ := hopen
      rw [SyntaxTree.depth] at hdepth
      obtain ⟨us, last, hus, hlast, rfl⟩ := children_of_nodesText ih hgap hnodes hclose (by omega)
      refine ⟨.fallback _ us, node_of_body .fallback hparen ?_ hlast, rfl⟩
      rw [body, hus]
      rfl
    | action hopen hcall hclose =>
      obtain ⟨paren, hparen, hgap⟩ := hopen
      refine ⟨.action _ _, node_of_body .action hparen ?_ hclose, rfl⟩
      rw [body, skip_of_callText hgap hcall, call_of_callText hcall (noArg_of_closing hclose)]
      rfl
    | condition hopen hcall hclose =>
      obtain ⟨paren, hparen, hgap⟩ := hopen
      refine ⟨.condition _ _, node_of_body .condition hparen ?_ hclose, rfl⟩
      rw [body, skip_of_callText hgap hcall, call_of_callText hcall (noArg_of_closing hclose)]
      rfl
    | decorator hopen hcall hinner hnode hclose =>
      obtain ⟨paren, hparen, hgap⟩ := hopen
      rw [SyntaxTree.depth] at hdepth
      obtain ⟨u, hu, rfl⟩ := ih hnode (by omega)
      refine ⟨.decorator _ _ u, node_of_body .decorator hparen ?_ hclose, rfl⟩
      rw [body, skip_of_callText hgap hcall, call_of_callText hcall (noArg_of_node hinner hnode)]
      dsimp only [bind, Except.bind]
      rw [skip_of_node hinner hnode, hu]
      rfl

theorem program_of_programText {t : SyntaxTree σ} {cs : List Char} (h : ProgramText mark t cs)
    (hdepth : t.depth ≤ maxDepth) : ∃ u, program cs = .ok u ∧ u.map mark = t := by
  obtain ⟨start, rest, hgap, hnode, hend⟩ := h
  obtain ⟨u, hu, rfl⟩ := complete_node mark maxDepth hnode hdepth
  refine ⟨u, ?_, rfl⟩
  unfold program
  rw [skip_of_node hgap hnode, hu]
  dsimp only [bind, Except.bind]
  rw [skip_eq_of_gap hend]
  rfl

end

end Parser

namespace Grammar

variable {σ : Type} {mark : Nat → σ}

theorem NodeText.unique {t u : SyntaxTree σ} {cs rest rest' : List Char}
    (h : NodeText mark t cs rest) (h' : NodeText mark u cs rest') : t = u ∧ rest = rest' := by
  -- With levels enough for both trees, the parser reads the one and the other.
  obtain ⟨v, hv, rfl⟩ := Parser.complete_node mark (max t.depth u.depth) h (Nat.le_max_left ..)
  obtain ⟨w, hw, rfl⟩ := Parser.complete_node mark _ h' (Nat.le_max_right ..)
  rw [hv] at hw
  obtain ⟨rfl, rfl⟩ := Prod.mk.inj (Except.ok.inj hw)
  exact ⟨rfl, rfl⟩

theorem ProgramText.unique {t u : SyntaxTree σ} {cs : List Char} (h : ProgramText mark t cs)
    (h' : ProgramText mark u cs) : t = u := by
  obtain ⟨start, rest, hgap, hnode, -⟩ := h
  obtain ⟨start', rest', hgap', hnode', -⟩ := h'
  obtain rfl : start = start' := by
    rw [← Parser.skip_of_node hgap hnode, ← Parser.skip_of_node hgap' hnode']
  exact (hnode.unique hnode').1

end Grammar

end BattleTree
