import BattleTree.Proofs.Program.Descent
import BattleTree.Proofs.Except
import BattleTree.Proofs.Program.Tokens

/-!
This module contains the soundness of the parser: what it reads at the start of a text is derived by
the grammar and leaves the same text, and no tree has more levels than the parser was given.
-/

namespace BattleTree

open Grammar

namespace Parser

def Kind.letter : Kind → Char
  | sequence => 'S'
  | fallback => 'F'
  | action => 'A'
  | condition => 'C'
  | decorator => 'D'

theorem Kind.ofChar?_eq_some_iff {c : Char} {kind : Kind} :
    Kind.ofChar? c = some kind ↔ c = kind.letter := by
  constructor
  · intro h
    unfold ofChar? at h
    split at h <;> cases h <;> rfl
  · rintro rfl
    cases kind <;> rfl

theorem gap_of_expect {c : Char} {cs rest : List Char} (h : expect c cs = .ok rest) :
    Gap cs (c :: rest) := by
  have hgap := gap_skip cs
  unfold expect at h
  split at h
  · next d tail hskip =>
    rw [hskip] at hgap
    split at h
    · next hd =>
      rw [← hd, ← Except.ok.inj h]
      exact hgap
    · simp at h
  · simp at h

theorem argText_of_word {word cs rest : List Char} (hname : NameText word cs rest)
    (hopens : ¬Opens rest) : ArgText (Arg.ofWord word) cs rest := by
  unfold Arg.ofWord
  split
  · next reference href => exact .ref hname hopens href
  · next hnone => exact .word hname hopens hnone

theorem argsText_of_argsFrom {fuel : Nat} {args : List Arg} {cs rest : List Char}
    (h : argsFrom fuel cs = .ok (args, rest)) : ArgsText args cs rest := by
  -- If the fuel ends early, fewer arguments are read, which are still arguments.
  induction fuel generalizing args cs with
  | zero =>
    obtain ⟨rfl, rfl⟩ := Prod.mk.inj (Except.ok.inj h)
    exact .nil _
  | succ fuel ih =>
    have hgap := gap_skip cs
    unfold argsFrom at h
    split at h
    · next body hskip =>
      rw [hskip] at hgap
      split at h
      · next text mid hquoted =>
        obtain ⟨⟨others, _⟩, hothers, h⟩ := bind_eq_ok_iff.mp h
        obtain ⟨rfl, rfl⟩ := Prod.mk.inj (Except.ok.inj h)
        obtain ⟨htext, rfl⟩ := quoted?_eq_some_iff.mp hquoted
        exact .cons hgap (.quoted htext) (ih hothers)
      · simp at h
    · next start hskip =>
      split at h
      · next word mid hword =>
        obtain ⟨⟨others, _⟩, hothers, h⟩ := bind_eq_ok_iff.mp h
        obtain ⟨rfl, rfl⟩ := Prod.mk.inj (Except.ok.inj h)
        obtain ⟨hname, hopens⟩ := word?_eq_some_iff.mp hword
        exact .cons hgap (argText_of_word hname hopens) (ih hothers)
      · obtain ⟨rfl, rfl⟩ := Prod.mk.inj (Except.ok.inj h)
        exact .nil _

theorem callText_of_call {c : Call} {cs rest : List Char} (h : call cs = .ok (c, rest)) :
    CallText c cs rest := by
  unfold call at h
  split at h
  · next name mid hname =>
    obtain ⟨⟨args, _⟩, hargs, h⟩ := bind_eq_ok_iff.mp h
    obtain ⟨rfl, rfl⟩ := Prod.mk.inj (Except.ok.inj h)
    exact .mk (name?_eq_some_iff.mp hname) (argsText_of_argsFrom hargs)
  · simp at h

section

variable {σ : Type} {mark : Nat → σ} {levels : Nat} {child : Reader (SyntaxTree Nat)}

def Sound (mark : Nat → σ) (levels : Nat) (child : Reader (SyntaxTree Nat)) : Prop :=
  ∀ {t : SyntaxTree Nat} {cs rest : List Char}, child cs = .ok (t, rest) →
    NodeText mark (t.map mark) cs rest ∧ t.depth ≤ levels

theorem siblingsText_of_siblingsFrom (hchild : Sound mark levels child) {fuel : Nat}
    {ts : List (SyntaxTree Nat)} {cs rest : List Char}
    (h : siblingsFrom child fuel cs = .ok (ts, rest)) :
    SiblingsText mark (SyntaxTree.mapAll mark ts) cs rest ∧ SyntaxTree.depthAll ts ≤ levels := by
  induction fuel generalizing ts cs with
  | zero =>
    obtain ⟨rfl, rfl⟩ := Prod.mk.inj (Except.ok.inj h)
    exact ⟨.nil _, by simp [SyntaxTree.depthAll]⟩
  | succ fuel ih =>
    have hgap := gap_skip cs
    unfold siblingsFrom at h
    split at h
    · next start hskip =>
      rw [hskip] at hgap
      obtain ⟨⟨first, mid⟩, hfirst, h⟩ := bind_eq_ok_iff.mp h
      obtain ⟨⟨others, _⟩, hothers, h⟩ := bind_eq_ok_iff.mp h
      obtain ⟨rfl, rfl⟩ := Prod.mk.inj (Except.ok.inj h)
      obtain ⟨hnode, hdepth⟩ := hchild hfirst
      obtain ⟨hsiblings, hdepths⟩ := ih hothers
      exact ⟨.cons hgap (gap_skip start) hnode hsiblings, Nat.max_le.mpr ⟨hdepth, hdepths⟩⟩
    · obtain ⟨rfl, rfl⟩ := Prod.mk.inj (Except.ok.inj h)
      exact ⟨.nil _, by simp [SyntaxTree.depthAll]⟩

theorem nodesText_of_children (hchild : Sound mark levels child) {ts : List (SyntaxTree Nat)}
    {cs rest : List Char} (h : children child cs = .ok (ts, rest)) :
    (∃ start, Gap cs start ∧ NodesText mark (SyntaxTree.mapAll mark ts) start rest) ∧
      SyntaxTree.depthAll ts ≤ levels := by
  unfold children at h
  split at h
  · obtain ⟨rfl, rfl⟩ := Prod.mk.inj (Except.ok.inj h)
    exact ⟨⟨_, .none _, .nil _⟩, by simp [SyntaxTree.depthAll]⟩
  · obtain ⟨⟨first, mid⟩, hfirst, h⟩ := bind_eq_ok_iff.mp h
    obtain ⟨⟨others, _⟩, hothers, h⟩ := bind_eq_ok_iff.mp h
    obtain ⟨rfl, rfl⟩ := Prod.mk.inj (Except.ok.inj h)
    obtain ⟨hnode, hdepth⟩ := hchild hfirst
    obtain ⟨hsiblings, hdepths⟩ := siblingsText_of_siblingsFrom hchild hothers
    exact ⟨⟨_, gap_skip cs, .cons hnode hsiblings⟩, Nat.max_le.mpr ⟨hdepth, hdepths⟩⟩

theorem nodeText_of_body (hchild : Sound mark levels child) {kind : Kind} {t : SyntaxTree Nat}
    {cs start mid rest : List Char}
    (hopen : Opening cs start) (hclose : Closing mid rest)
    (h : body child kind (kind.letter :: cs).length start = .ok (t, mid)) :
    NodeText mark (t.map mark) (kind.letter :: cs) rest ∧ t.depth ≤ levels + 1 := by
  have hgap {last : List Char} (hlast : Gap start last) : Opening cs last := by
    obtain ⟨paren, hparen, hstart⟩ := hopen
    exact ⟨paren, hparen, hstart.trans hlast⟩
  cases kind with
  | sequence | fallback =>
    obtain ⟨⟨ts, _⟩, hts, h⟩ := bind_eq_ok_iff.mp h
    obtain ⟨rfl, rfl⟩ := Prod.mk.inj (Except.ok.inj h)
    obtain ⟨⟨last, hlast, hnodes⟩, hdepth⟩ := nodesText_of_children hchild hts
    rw [SyntaxTree.map, SyntaxTree.depth, Nat.add_comm]
    constructor
    · constructor
      · exact hgap hlast
      · exact hnodes
      · exact hclose
    · omega
  | action | condition =>
    obtain ⟨⟨c, _⟩, hc, h⟩ := bind_eq_ok_iff.mp h
    obtain ⟨rfl, rfl⟩ := Prod.mk.inj (Except.ok.inj h)
    rw [SyntaxTree.map, SyntaxTree.depth]
    constructor
    · constructor
      · exact hopen
      · exact callText_of_call hc
      · exact hclose
    · omega
  | decorator =>
    obtain ⟨⟨c, mid⟩, hc, h⟩ := bind_eq_ok_iff.mp h
    obtain ⟨⟨inner, _⟩, hinner, h⟩ := bind_eq_ok_iff.mp h
    obtain ⟨rfl, rfl⟩ := Prod.mk.inj (Except.ok.inj h)
    obtain ⟨hnode, hdepth⟩ := hchild hinner
    rw [SyntaxTree.map, SyntaxTree.depth, Nat.add_comm]
    constructor
    · exact .decorator hopen (callText_of_call hc) (gap_skip mid) hnode hclose
    · omega

theorem sound_node (mark : Nat → σ) (levels : Nat) : Sound mark levels (node levels) := by
  -- The reader of the children has one level less than the reader of their parent.
  induction levels with
  | zero =>
    intro t cs rest h
    simp [node] at h
  | succ levels ih =>
    intro t cs rest h
    unfold node at h
    split at h
    · simp at h
    · next letter tail =>
      split at h
      · simp at h
      · next kind hkind =>
        obtain ⟨start, hstart, h⟩ := bind_eq_ok_iff.mp h
        obtain ⟨⟨tree, mid⟩, htree, h⟩ := bind_eq_ok_iff.mp h
        obtain ⟨_, hclose, h⟩ := bind_eq_ok_iff.mp h
        obtain ⟨rfl, rfl⟩ := Prod.mk.inj (Except.ok.inj h)
        obtain rfl := Kind.ofChar?_eq_some_iff.mp hkind
        exact nodeText_of_body ih ⟨start, gap_of_expect hstart, gap_skip start⟩
          (gap_of_expect hclose) htree

end

theorem programText_of_program {σ : Type} (mark : Nat → σ) {t : SyntaxTree Nat} {cs : List Char}
    (h : program cs = .ok t) : ProgramText mark (t.map mark) cs ∧ t.depth ≤ maxDepth := by
  unfold program at h
  obtain ⟨⟨tree, rest⟩, htree, h⟩ := bind_eq_ok_iff.mp h
  obtain ⟨hnode, hdepth⟩ := sound_node mark maxDepth htree
  have hgap := gap_skip rest
  dsimp only at h
  split at h
  · next hend =>
    rw [hend] at hgap
    obtain rfl := Except.ok.inj h
    exact ⟨⟨_, rest, gap_skip cs, hnode, hgap⟩, hdepth⟩
  · simp at h

end Parser

end BattleTree
