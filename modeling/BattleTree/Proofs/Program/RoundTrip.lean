import BattleTree.Proofs.Program.Canonical
import BattleTree.Proofs.Program.Recognition

/-!
This module contains the round trip of programs: the canonical text of a tree is parsed to the same
tree, and every parsed tree has a canonical text of which this is true.
-/

namespace BattleTree

open Grammar

namespace Grammar

open SyntaxTree

theorem printable_of_argText {arg : Arg} {cs rest : List Char} (h : ArgText arg cs rest) :
    arg.Printable := by
  cases h with
  | word hname _ hnone =>
    rw [Arg.Printable, String.toList_ofList]
    exact ⟨hname.isName, hnone⟩
  | ref => exact trivial
  | quoted htext =>
    rw [Arg.Printable, String.toList_ofList]
    exact htext

theorem printable_of_argsText {args : List Arg} {cs rest : List Char}
    (h : ArgsText args cs rest) : ∀ arg ∈ args, arg.Printable := by
  induction h with
  | nil => simp
  | cons _ harg _ ih =>
    rw [List.forall_mem_cons]
    exact ⟨printable_of_argText harg, ih⟩

theorem printable_of_callText {call : Call} {cs rest : List Char} (h : CallText call cs rest) :
    call.Printable := by
  cases h with
  | mk hname hargs =>
    constructor
    · rw [String.toList_ofList]
      exact hname.isName
    · exact printable_of_argsText hargs

variable {σ : Type} {mark : Nat → σ}

mutual

theorem printable_of_nodeText {t : SyntaxTree σ} {cs rest : List Char}
    (h : NodeText mark t cs rest) : t.Printable := by
  cases h with
  | sequence _ hnodes _ =>
    rw [printable_sequence]
    exact printable_of_nodesText hnodes
  | fallback _ hnodes _ =>
    rw [printable_fallback]
    exact printable_of_nodesText hnodes
  | action _ hcall _ =>
    rw [printable_action]
    exact printable_of_callText hcall
  | condition _ hcall _ =>
    rw [printable_condition]
    exact printable_of_callText hcall
  | decorator _ hcall _ hnode _ =>
    rw [printable_decorator]
    exact ⟨printable_of_callText hcall, printable_of_nodeText hnode⟩

theorem printable_of_nodesText {ts : List (SyntaxTree σ)} {cs rest : List Char}
    (h : NodesText mark ts cs rest) : ∀ t ∈ ts, t.Printable := by
  cases h with
  | nil => simp
  | cons hnode hsiblings =>
    rw [List.forall_mem_cons]
    exact ⟨printable_of_nodeText hnode, printable_of_siblingsText hsiblings⟩

theorem printable_of_siblingsText {ts : List (SyntaxTree σ)} {cs rest : List Char}
    (h : SiblingsText mark ts cs rest) : ∀ t ∈ ts, t.Printable := by
  cases h with
  | nil => simp
  | cons _ _ hnode hsiblings =>
    rw [List.forall_mem_cons]
    exact ⟨printable_of_nodeText hnode, printable_of_siblingsText hsiblings⟩

end

end Grammar

namespace SyntaxTree

variable {σ τ : Type}

mutual

theorem text_map (f : σ → τ) (t : SyntaxTree σ) : (t.map f).text = t.text := by
  cases t with
  | sequence m ts | fallback m ts => rw [map, text, text, textAll_mapAll f ts]
  | action m call | condition m call => rfl
  | decorator m call t => rw [map, text, text, text_map f t]

theorem textAll_mapAll (f : σ → τ) (ts : List (SyntaxTree σ)) :
    textAll (mapAll f ts) = textAll ts := by
  match ts with
  | [] => rfl
  | [t] => rw [mapAll, mapAll, textAll, textAll, text_map f t]
  | t :: u :: us =>
    rw [mapAll, textAll, ← textAll_mapAll f (u :: us), mapAll, textAll, text_map f t]

end

theorem text_shape (t : SyntaxTree σ) : t.shape.text = t.text := by
  apply text_map

end SyntaxTree

namespace Program

theorem printable_of_parse {text : String} {tree : SyntaxTree Span} (h : parse text = .ok tree) :
    tree.Printable := by
  obtain ⟨start, rest, -, hnode, -⟩ := (programText_of_parse h).1
  exact printable_of_nodeText hnode

theorem parse_text {σ : Type} {t : SyntaxTree σ} (hdepth : t.depth ≤ maxDepth)
    (h : t.Printable) : ∃ u, parse t.text = .ok u ∧ u.shape = t.shape := by
  apply parse_of_derives (derives_text h)
  rw [SyntaxTree.depth_shape]
  exact hdepth

theorem parse_canonical_text :
    (∀ t : SyntaxTree Span, t.depth ≤ maxDepth → t.Printable →
      ∃ u, parse t.text = .ok u ∧ u.shape = t.shape) ∧
    ∀ (text : String) (t : SyntaxTree Span), parse text = .ok t →
      (t.depth ≤ maxDepth ∧ t.Printable) ∧
        ∃ u, parse t.text = .ok u ∧ u.shape = t.shape ∧ u.text = t.text := by
  constructor
  · intro t hdepth hprintable
    exact parse_text hdepth hprintable
  · intro text t h
    have hdepth := (programText_of_parse h).2
    have hprintable := printable_of_parse h
    obtain ⟨u, hu, hshape⟩ := parse_text hdepth hprintable
    refine ⟨⟨hdepth, hprintable⟩, u, hu, hshape, ?_⟩
    rw [← SyntaxTree.text_shape u, hshape, SyntaxTree.text_shape]

theorem parse_canonical_text_decorated :
    let t : SyntaxTree Span := .decorator default ⟨"invert", []⟩ <| .condition default
      ⟨"is_dying", [.quoted "// (\n", .word "enemy_99999999999999999999", .ref (.friend 7)]⟩
    (t.depth ≤ maxDepth ∧ t.Printable) ∧ ∃ u, parse t.text = .ok u ∧ u.shape = t.shape :=
  ⟨by decide, parse_canonical_text.1 _ (by decide) (by decide)⟩

end Program

end BattleTree
