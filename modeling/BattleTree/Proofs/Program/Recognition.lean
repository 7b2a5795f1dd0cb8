import BattleTree.Proofs.Program.Scanning

/-!
This module contains the agreement of the parser with the grammar: programs are the texts that the
grammar derives with at most `maxDepth` levels, and every text has at most one tree.
-/

namespace BattleTree

open Grammar

namespace Program

theorem program_of_parse {text : String} {tree : SyntaxTree Span} (h : parse text = .ok tree) :
    ∃ t, Parser.program text.toList = .ok t ∧ t.map (Span.ofRemaining text.toList) = tree := by
  rw [parse_eq] at h
  split at h
  · next t ht => exact ⟨t, ht, Except.ok.inj h⟩
  · simp at h

theorem programText_of_parse {text : String} {tree : SyntaxTree Span} (h : parse text = .ok tree) :
    ProgramText (Span.ofRemaining text.toList) tree text.toList ∧ tree.depth ≤ maxDepth := by
  obtain ⟨t, ht, rfl⟩ := program_of_parse h
  rw [SyntaxTree.depth_map]
  exact Parser.programText_of_program _ ht

theorem derives_of_parse {text : String} {tree : SyntaxTree Span} (h : parse text = .ok tree) :
    Derives text tree.shape ∧ tree.depth ≤ maxDepth := by
  obtain ⟨t, ht, rfl⟩ := program_of_parse h
  rw [SyntaxTree.shape_map, SyntaxTree.depth_map]
  exact Parser.programText_of_program (fun _ => ()) ht

theorem parse_of_derives {text : String} {t : SyntaxTree Unit} (h : Derives text t)
    (hdepth : t.depth ≤ maxDepth) : ∃ tree, parse text = .ok tree ∧ tree.shape = t := by
  obtain ⟨u, hu, rfl⟩ := Parser.program_of_programText h hdepth
  refine ⟨u.map (Span.ofRemaining text.toList), ?_, SyntaxTree.shape_map ..⟩
  rw [parse_eq, hu]

theorem parse_eq_ok_iff_derives (text : String) :
    (∀ t : SyntaxTree Unit,
      (∃ tree, parse text = .ok tree ∧ tree.shape = t) ↔ Derives text t ∧ t.depth ≤ maxDepth) ∧
    ∀ t u : SyntaxTree Unit, Derives text t → Derives text u → t = u := by
  constructor
  · intro t
    constructor
    · rintro ⟨tree, hparse, rfl⟩
      rw [SyntaxTree.depth_shape]
      exact derives_of_parse hparse
    · rintro ⟨hderives, hdepth⟩
      exact parse_of_derives hderives hdepth
  · intro t u ht hu
    exact ht.unique hu

end Program

end BattleTree
