import BattleTree.Proofs.Program.Canonical
import BattleTree.Proofs.Program.Failure

/-!
This module contains the exactness of the nesting limit: a text whose tree has more levels than the
parser was given is refused at the first node that is one level too deep, whatever comes after it.
-/

namespace BattleTree

namespace SyntaxTree

variable {σ τ : Type}

mutual

def leveled (level : Nat) : SyntaxTree σ → List (Nat × SyntaxTree σ)
  | sequence m children => (level, sequence m children) :: leveledAll (level + 1) children
  | fallback m children => (level, fallback m children) :: leveledAll (level + 1) children
  | action m call => [(level, action m call)]
  | condition m call => [(level, condition m call)]
  | decorator m call child => (level, decorator m call child) :: child.leveled (level + 1)

def leveledAll (level : Nat) : List (SyntaxTree σ) → List (Nat × SyntaxTree σ)
  | [] => []
  | t :: ts => t.leveled level ++ leveledAll level ts

end

mutual

theorem map_snd_leveled (level : Nat) (t : SyntaxTree σ) :
    (t.leveled level).map Prod.snd = t.preorder := by
  cases t with
  | sequence m children | fallback m children =>
    simp [leveled, preorder, map_snd_leveledAll (level + 1) children]
  | action m call | condition m call => rfl
  | decorator m call child => simp [leveled, preorder, map_snd_leveled (level + 1) child]

theorem map_snd_leveledAll (level : Nat) (ts : List (SyntaxTree σ)) :
    (leveledAll level ts).map Prod.snd = preorderAll ts := by
  cases ts with
  | nil => rfl
  | cons t ts =>
    simp [leveledAll, preorderAll, map_snd_leveled level t, map_snd_leveledAll level ts]

end

mutual

theorem lt_of_mem_leveled {level : Nat} {t : SyntaxTree σ} {p : Nat × SyntaxTree σ}
    (h : p ∈ t.leveled level) : p.1 < level + t.depth := by
  cases t with
  | sequence m children | fallback m children =>
    rw [leveled, List.mem_cons] at h
    rw [depth]
    rcases h with rfl | h
    · dsimp only
      omega
    · have := lt_of_mem_leveledAll h
      omega
  | action m call | condition m call =>
    rw [leveled, List.mem_singleton] at h
    subst h
    exact Nat.lt_succ_self level
  | decorator m call child =>
    rw [leveled, List.mem_cons] at h
    rw [depth]
    rcases h with rfl | h
    · dsimp only
      omega
    · have := lt_of_mem_leveled h
      omega

theorem lt_of_mem_leveledAll {level : Nat} {ts : List (SyntaxTree σ)} {p : Nat × SyntaxTree σ}
    (h : p ∈ leveledAll level ts) : p.1 < level + depthAll ts := by
  cases ts with
  | nil => cases h
  | cons t ts =>
    rw [leveledAll, List.mem_append] at h
    rw [depthAll]
    rcases h with h | h
    · have := lt_of_mem_leveled h
      omega
    · have := lt_of_mem_leveledAll h
      omega

end

theorem find?_leveled_eq_none {level n : Nat} {t : SyntaxTree σ} (h : level + t.depth ≤ n) :
    (t.leveled level).find? (·.1 = n) = none := by
  rw [List.find?_eq_none]
  intro p hp
  have := lt_of_mem_leveled hp
  rw [decide_eq_true_eq]
  omega

end SyntaxTree

open Grammar Lexeme

section

variable {σ : Type} {mark : Nat → σ}

structure FirstAt (mark : Nat → σ) (nodes : List (Nat × SyntaxTree σ)) (level : Nat)
    (cs start : List Char) : Prop where
  exists_first : ∃ u rest, nodes.find? (·.1 = level) = some (level, u) ∧ NodeText mark u start rest
  suffix : start <:+ cs

variable {nodes nodes' : List (Nat × SyntaxTree σ)} {level : Nat} {cs start : List Char}

theorem FirstAt.of_suffix {mid : List Char} (h : FirstAt mark nodes level mid start)
    (hmid : mid <:+ cs) : FirstAt mark nodes level cs start := by
  exact ⟨h.exists_first, h.suffix.trans hmid⟩

theorem FirstAt.of_paren {paren : List Char} (h : FirstAt mark nodes level paren start)
    (kind : Parser.Kind) (hparen : Gap cs ('(' :: paren)) :
    FirstAt mark nodes level (kind.letter :: cs) start := by
  apply h.of_suffix
  exact (List.suffix_cons '(' paren).trans (hparen.suffix.trans (List.suffix_cons ..))

theorem FirstAt.cons {n : Nat} {t : SyntaxTree σ} (h : FirstAt mark nodes level cs start)
    (hn : n ≠ level) : FirstAt mark ((n, t) :: nodes) level cs start := by
  refine ⟨?_, h.suffix⟩
  rw [List.find?_cons_of_neg (by simpa using hn)]
  exact h.exists_first

theorem FirstAt.append_left (h : FirstAt mark nodes level cs start) :
    FirstAt mark (nodes ++ nodes') level cs start := by
  obtain ⟨⟨u, rest, hfind, hnode⟩, hsuffix⟩ := h
  refine ⟨⟨u, rest, ?_, hnode⟩, hsuffix⟩
  rw [List.find?_append, hfind, Option.some_or]

theorem FirstAt.append_right (h : FirstAt mark nodes' level cs start)
    (hnone : nodes.find? (·.1 = level) = none) :
    FirstAt mark (nodes ++ nodes') level cs start := by
  refine ⟨?_, h.suffix⟩
  rw [List.find?_append, hnone, Option.none_or]
  exact h.exists_first

theorem FirstAt.root {t : SyntaxTree σ} {rest : List Char} (level : Nat)
    (h : NodeText mark t cs rest) : FirstAt mark (t.leveled level) level cs cs := by
  refine ⟨⟨t, rest, ?_, h⟩, List.suffix_rfl⟩
  cases t <;>
  · rw [SyntaxTree.leveled, List.find?_cons_of_pos (by simp)]

end

namespace Parser

section

variable {σ : Type} {mark : Nat → σ} {levels : Nat} {child : Reader (SyntaxTree Nat)}

def Refuses (mark : Nat → σ) (levels : Nat) (child : Reader (SyntaxTree Nat)) : Prop :=
  ∀ {t : SyntaxTree σ} {cs rest : List Char} (level : Nat), NodeText mark t cs rest →
    levels < t.depth → ∃ start, child cs = .error ⟨start, .shallower⟩ ∧
      FirstAt mark (t.leveled level) (level + levels) cs start

theorem siblingsFrom_colons {fuel : Nat} {cs start : List Char}
    (hskip : skip cs = ':' :: ':' :: start) :
    siblingsFrom child (fuel + 1) cs = child (skip start) >>= fun first =>
      siblingsFrom child fuel first.2 >>= fun others =>
        return (first.1 :: others.1, others.2) := by
  rw [siblingsFrom]
  split
  · next start' hskip' =>
    obtain rfl : start' = start := by simpa [hskip] using hskip'.symm
    rfl
  · next hne => exact absurd hskip (hne start)

theorem children_node {t : SyntaxTree σ} {cs start rest : List Char} (hgap : Gap cs start)
    (hnode : NodeText mark t start rest) :
    children child (skip cs) = child start >>= fun first =>
      siblingsFrom child first.2.length first.2 >>= fun others =>
        return (first.1 :: others.1, others.2) := by
  obtain ⟨kind, tail, _, rfl, -⟩ := hnode.starts
  unfold children
  rw [skip_of_node hgap hnode, skip_token (startsToken_letter kind)]
  split
  · next heq => cases kind <;> simp [Kind.letter] at heq
  · rfl

theorem siblingsFrom_of_lt_depthAll (hsound : Sound (fun _ => ()) levels child)
    (hcomplete : Complete mark levels child) (hrefuses : Refuses mark levels child) {fuel : Nat}
    (level : Nat) {ts : List (SyntaxTree σ)} {cs mid : List Char} (h : SiblingsText mark ts cs mid)
    (hdepth : levels < SyntaxTree.depthAll ts) (hfuel : cs.length ≤ fuel) :
    ∃ start, siblingsFrom child fuel cs = .error ⟨start, .shallower⟩ ∧
      FirstAt mark (SyntaxTree.leveledAll level ts) (level + levels) cs start := by
  induction ts generalizing fuel cs with
  | nil => exact absurd hdepth (Nat.not_lt_zero levels)
  | cons t ts ih =>
    cases h with
    | @cons _ _ _ colons inner next _ hcolons hgap hnode hsiblings =>
      have hlength : cs.length ≥ colons.length + 2 := hcolons.suffix.length_le
      have := hgap.suffix.length_le
      have := hnode.length_lt
      obtain ⟨fuel, rfl⟩ : ∃ n, fuel = n + 1 := ⟨fuel - 1, by omega⟩
      have hskip := skip_eq_of_gap_token hcolons (by decide)
      have hinner : inner <:+ cs :=
        hgap.suffix.trans ((List.suffix_append [':', ':'] colons).trans hcolons.suffix)
      rw [siblingsFrom_colons hskip, skip_of_node hgap hnode, SyntaxTree.leveledAll]
      rcases Nat.lt_or_ge levels t.depth with ht | ht
      · obtain ⟨start, hstart, hfirst⟩ := hrefuses level hnode ht
        rw [hstart]
        exact ⟨start, rfl, (hfirst.of_suffix hinner).append_left⟩
      · -- The node itself is not too deep, so one of those after it is.
        rw [SyntaxTree.depthAll] at hdepth
        obtain ⟨u, hu, -⟩ := hcomplete hnode ht
        have hsuffix := (hsound hu).1.suffix
        have hnext : next.length ≤ fuel := by omega
        obtain ⟨start, hstart, hfirst⟩ := ih hsiblings (by omega) hnext
        rw [hu]
        dsimp only [bind, Except.bind]
        rw [hstart]
        refine ⟨start, rfl, (hfirst.of_suffix (hsuffix.trans hinner)).append_right ?_⟩
        exact SyntaxTree.find?_leveled_eq_none (Nat.add_le_add_left ht level)

theorem children_of_lt_depthAll (hsound : Sound (fun _ => ()) levels child)
    (hcomplete : Complete mark levels child) (hrefuses : Refuses mark levels child) (level : Nat)
    {ts : List (SyntaxTree σ)} {cs start mid : List Char} (hgap : Gap cs start)
    (h : NodesText mark ts start mid) (hdepth : levels < SyntaxTree.depthAll ts) :
    ∃ last, children child (skip cs) = .error ⟨last, .shallower⟩ ∧
      FirstAt mark (SyntaxTree.leveledAll level ts) (level + levels) cs last := by
  cases h with
  | nil => exact absurd hdepth (Nat.not_lt_zero levels)
  | @cons t ts _ next _ hnode hsiblings =>
    rw [children_node hgap hnode, SyntaxTree.leveledAll]
    rcases Nat.lt_or_ge levels t.depth with ht | ht
    · obtain ⟨last, hlast, hfirst⟩ := hrefuses level hnode ht
      rw [hlast]
      exact ⟨last, rfl, (hfirst.of_suffix hgap.suffix).append_left⟩
    · rw [SyntaxTree.depthAll] at hdepth
      obtain ⟨u, hu, -⟩ := hcomplete hnode ht
      have hsuffix := (hsound hu).1.suffix
      obtain ⟨last, hlast, hfirst⟩ := siblingsFrom_of_lt_depthAll hsound hcomplete hrefuses level
        hsiblings (by omega) (Nat.le_refl next.length)
      rw [hu]
      dsimp only [bind, Except.bind]
      rw [hlast]
      refine ⟨last, rfl, (hfirst.of_suffix (hsuffix.trans hgap.suffix)).append_right ?_⟩
      exact SyntaxTree.find?_leveled_eq_none (Nat.add_le_add_left ht level)

end

theorem node_of_body_error {levels : Nat} (kind : Kind) {cs paren : List Char} {f : Failure}
    (hparen : Gap cs ('(' :: paren))
    (hbody : body (node levels) kind (kind.letter :: cs).length (skip paren) = .error f) :
    node (levels + 1) (kind.letter :: cs) = .error f := by
  unfold node
  dsimp only
  rw [Kind.ofChar?_eq_some_iff.mpr rfl]
  dsimp only
  rw [expect_of_gap (by decide) hparen]
  dsimp only [bind, Except.bind]
  rw [hbody]

theorem refuses_node {σ : Type} (mark : Nat → σ) (levels : Nat) :
    Refuses mark levels (node levels) := by
  -- The children are read with one level less, and they are one level further down.
  induction levels with
  | zero =>
    intro t cs rest level h _
    exact ⟨cs, rfl, .root level h⟩
  | succ levels ih =>
    intro t cs rest level h hdepth
    have hsound : Sound (fun _ => ()) levels (node levels) := sound_node _ levels
    have hcomplete : Complete mark levels (node levels) := complete_node mark levels
    have hlevel : level + 1 + levels = level + (levels + 1) := by omega
    have hroot : level ≠ level + (levels + 1) := by omega
    cases h with
    | sequence hopening hnodes hclose =>
      obtain ⟨paren, hparen, hgap⟩ := hopening
      rw [SyntaxTree.depth] at hdepth
      obtain ⟨last, hlast, hfirst⟩ := children_of_lt_depthAll hsound hcomplete ih (level + 1) hgap
        hnodes (by omega)
      rw [hlevel] at hfirst
      refine ⟨last, node_of_body_error .sequence hparen ?_,
        (hfirst.of_paren .sequence hparen).cons hroot⟩
      rw [body, hlast]
      rfl
    | fallback hopening hnodes hclose =>
      obtain ⟨paren, hparen, hgap⟩ := hopening
      rw [SyntaxTree.depth] at hdepth
      obtain ⟨last, hlast, hfirst⟩ := children_of_lt_depthAll hsound hcomplete ih (level + 1) hgap
        hnodes (by omega)
      rw [hlevel] at hfirst
      refine ⟨last, node_of_body_error .fallback hparen ?_,
        (hfirst.of_paren .fallback hparen).cons hroot⟩
      rw [body, hlast]
      rfl
    | action | condition =>
      rw [SyntaxTree.depth] at hdepth
      omega
    | decorator hopening hcall hinner hnode hclose =>
      obtain ⟨paren, hparen, hgap⟩ := hopening
      rw [SyntaxTree.depth] at hdepth
      obtain ⟨last, hlast, hfirst⟩ := ih (level + 1) hnode (by omega)
      rw [hlevel] at hfirst
      have hsuffix := hinner.suffix.trans (hcall.suffix.trans hgap.suffix)
      refine ⟨last, node_of_body_error .decorator hparen ?_,
        ((hfirst.of_suffix hsuffix).of_paren .decorator hparen).cons hroot⟩
      rw [body, skip_of_callText hgap hcall, call_of_callText hcall (noArg_of_node hinner hnode)]
      dsimp only [bind, Except.bind]
      rw [skip_of_node hinner hnode, hlast]

theorem program_of_lt_depth {σ : Type} {mark : Nat → σ} {t : SyntaxTree σ} {cs : List Char}
    (h : ProgramText mark t cs) (hdepth : maxDepth < t.depth) :
    ∃ start, program cs = .error ⟨start, .shallower⟩ ∧
      FirstAt mark (t.leveled 1) (maxDepth + 1) cs start := by
  obtain ⟨begin, rest, hgap, hnode, -⟩ := h
  obtain ⟨start, hstart, hfirst⟩ := refuses_node mark maxDepth 1 hnode hdepth
  rw [Nat.add_comm] at hfirst
  refine ⟨start, ?_, hfirst.of_suffix hgap.suffix⟩
  unfold program
  rw [skip_of_node hgap hnode, hstart]
  rfl

end Parser

namespace Grammar

theorem NodeText.mark_eq {σ : Type} {mark : Nat → σ} {t : SyntaxTree σ} {cs rest : List Char}
    (h : NodeText mark t cs rest) : t.mark = mark cs.length := by
  cases h <;> rfl

theorem ProgramText.exists_marked {σ : Type} (mark : Nat → σ) {t : SyntaxTree Unit}
    {cs : List Char} (h : ProgramText (fun _ => ()) t cs) :
    ∃ u, ProgramText mark u cs ∧ u.shape = t := by
  obtain ⟨start, rest, hgap, hnode, hend⟩ := h
  obtain ⟨u, hu, rfl⟩ := Parser.complete_node _ t.depth hnode (Nat.le_refl t.depth)
  refine ⟨u.map mark, ⟨start, rest, hgap, (Parser.sound_node mark _ hu).1, hend⟩, ?_⟩
  apply SyntaxTree.shape_map

end Grammar

namespace Program

theorem parse_of_programText {text : String} {tree : SyntaxTree Span}
    (h : ProgramText (Span.ofRemaining text.toList) tree text.toList)
    (hdepth : tree.depth ≤ maxDepth) : parse text = .ok tree := by
  obtain ⟨t, ht, rfl⟩ := Parser.program_of_programText h hdepth
  rw [parse_eq, ht]

theorem parse_of_derives_deep {text : String} {t : SyntaxTree Unit} (h : Derives text t) :
    ∃ tree, ProgramText (Span.ofRemaining text.toList) tree text.toList ∧ tree.shape = t ∧
      (t.depth ≤ maxDepth → parse text = .ok tree) ∧
      (maxDepth < t.depth → ∃ e u before start rest, parse text = .error e ∧
        e.expected = "nesting at most 64 deep" ∧
        (tree.leveled 1).find? (·.1 = maxDepth + 1) = some (maxDepth + 1, u) ∧
        NodeText (Span.ofRemaining text.toList) u start rest ∧ text.toList = before ++ start ∧
        e.span = u.mark ∧ e.span.Locates before) := by
  obtain ⟨tree, htext, rfl⟩ := ProgramText.exists_marked (Span.ofRemaining text.toList) h
  refine ⟨tree, htext, rfl, ?_, ?_⟩
  · intro hdepth
    rw [SyntaxTree.depth_shape] at hdepth
    exact parse_of_programText htext hdepth
  · intro hdepth
    rw [SyntaxTree.depth_shape] at hdepth
    obtain ⟨start, hprogram, ⟨u, rest, hfind, hnode⟩, before, hbefore⟩ :=
      Parser.program_of_lt_depth htext hdepth
    refine ⟨_, u, before, start, rest, parse_of_program_error hprogram, text_shallower, hfind,
      hnode, hbefore.symm, hnode.mark_eq.symm, ?_⟩
    unfold ParseError.ofFailure
    rw [← hbefore]
    apply Span.locates_ofRemaining

def steep : Nat → SyntaxTree Unit
  | 0 => .action () ⟨"stand", []⟩
  | n + 1 =>
    .decorator () ⟨"invert", []⟩
      (.sequence () [.condition () ⟨"is_armed", [.ref .self]⟩, .fallback () [steep n]])

theorem printable_steep (n : Nat) : (steep n).Printable := by
  induction n with
  | zero =>
    rw [steep, SyntaxTree.printable_action]
    decide
  | succ n ih =>
    have hinvert : Call.Printable ⟨"invert", []⟩ := by decide
    have harmed : Call.Printable ⟨"is_armed", [.ref .self]⟩ := by decide
    simp [steep, hinvert, harmed, ih]

theorem depth_steep (n : Nat) : (steep n).depth = 3 * n + 1 := by
  induction n with
  | zero => rfl
  | succ n ih =>
    simp only [steep, SyntaxTree.depth, SyntaxTree.depthAll, ih]
    omega

theorem parse_of_derives_deep_steep :
    Derives (steep 22).text (steep 22).shape ∧ maxDepth < (steep 22).shape.depth ∧
    ∃ e before start, parse (steep 22).text = .error e ∧ e.expected = "nesting at most 64 deep" ∧
      (steep 22).text.toList = before ++ start ∧ e.span.Locates before := by
  have hderives := derives_text (printable_steep 22)
  have hdepth : maxDepth < (steep 22).shape.depth := by
    rw [SyntaxTree.depth_shape, depth_steep]
    decide
  obtain ⟨tree, -, -, -, hdeep⟩ := parse_of_derives_deep hderives
  obtain ⟨e, u, before, start, rest, hparse, hexpected, -, -, htext, -, hlocates⟩ := hdeep hdepth
  exact ⟨hderives, hdepth, e, before, start, hparse, hexpected, htext, hlocates⟩

end Program

end BattleTree
