import BattleTree.Proofs.Graph.Binding
import BattleTree.Proofs.Program.Places
import Mathlib.Data.List.Nodup

/-!
This module contains that the place of a compile error leads to the node at fault. The node is found
by its offset, and its text alone is refused for the same reason, at its very start.
-/

namespace BattleTree

variable {σ τ : Type}

def CompileError.map (f : σ → τ) : CompileError σ → CompileError τ
  | unknownAtomic name m => .unknownAtomic name (f m)
  | invalidParameter name reason m => .invalidParameter name reason (f m)
  | wrongKind name expected found m => .wrongKind name expected found (f m)

theorem resolve_eq_ok_of_map {f : σ → τ} {call : Call} {m : σ} {found : Resolved}
    (h : resolve call (f m) = .ok found) : resolve call m = .ok found := by
  unfold resolve at h ⊢
  split at h
  · cases h
  · split at h
    · rw [Except.ok.inj h]
    · cases h

theorem exists_resolve_eq_error {f : σ → τ} {call : Call} {m : σ} {e : CompileError τ}
    (h : resolve call (f m) = .error e) : ∃ e', resolve call m = .error e' ∧ e'.map f = e := by
  unfold resolve at h ⊢
  split at h
  · exact ⟨_, rfl, Except.error.inj h⟩
  · split at h
    · cases h
    · exact ⟨_, rfl, Except.error.inj h⟩

namespace SyntaxTree

theorem call?_map (f : σ → τ) (t : SyntaxTree σ) : (t.map f).call? = t.call? := by
  cases t <;> rfl

theorem role?_map (f : σ → τ) (t : SyntaxTree σ) : (t.map f).role? = t.role? := by
  cases t <;> rfl

theorem Offends.exists_of_map {f : σ → τ} {t : SyntaxTree σ} {e : CompileError τ}
    (h : (t.map f).Offends e) : ∃ e', t.Offends e' ∧ e'.map f = e := by
  cases h with
  | unresolved hcall herror =>
    rw [mark_map] at herror
    obtain ⟨e', he', rfl⟩ := exists_resolve_eq_error herror
    rw [call?_map] at hcall
    exact ⟨e', .unresolved hcall he', rfl⟩
  | wrongKind hcall hrole hfound hne =>
    rw [mark_map] at hfound ⊢
    rw [call?_map] at hcall
    rw [role?_map] at hrole
    exact ⟨_, .wrongKind hcall hrole (resolve_eq_ok_of_map hfound) hne, rfl⟩

theorem Offends.unique {t : SyntaxTree σ} {e e' : CompileError σ} (h : t.Offends e)
    (h' : t.Offends e') : e = e' := by
  cases h with
  | unresolved hcall herror =>
    cases h' with
    | unresolved hcall' herror' =>
      obtain rfl := Option.mem_unique hcall hcall'
      exact Except.error.inj (herror.symm.trans herror')
    | wrongKind hcall' _ hfound =>
      obtain rfl := Option.mem_unique hcall hcall'
      rw [herror] at hfound
      cases hfound
  | wrongKind hcall hrole hfound =>
    cases h' with
    | unresolved hcall' herror =>
      obtain rfl := Option.mem_unique hcall hcall'
      rw [hfound] at herror
      cases herror
    | wrongKind hcall' hrole' hfound' =>
      obtain rfl := Option.mem_unique hcall hcall'
      obtain rfl := Option.mem_unique hrole hrole'
      obtain rfl := Except.ok.inj (hfound.symm.trans hfound')
      rfl

theorem Offends.compile_eq {t : SyntaxTree σ} {e : CompileError σ} (h : t.Offends e) :
    t.compile = .error e := by
  cases hcompile : t.compile with
  | ok g =>
    have hresolves := exists_compile_iff.mp ⟨g, hcompile⟩
    exact absurd (hresolves t t.self_mem_preorder) h.not_resolves
  | error e' =>
    obtain ⟨before, u, after, hsplit, hbefore, hu⟩ := firstOffence_of_compile hcompile
    obtain ⟨tail, htail⟩ : ∃ tail, t.preorder = t :: tail := by
      cases t <;> exact ⟨_, rfl⟩
    rw [htail] at hsplit
    cases before with
    | nil =>
      obtain ⟨rfl, -⟩ := List.cons.inj hsplit
      rw [h.unique hu]
    | cons x before =>
      obtain ⟨rfl, -⟩ := List.cons.inj hsplit
      exact absurd (hbefore t List.mem_cons_self) h.not_resolves

end SyntaxTree

namespace Program

theorem Stands.exists_error {text : String} {u v : SyntaxTree Span}
    {before slice after : List Char} {e : CompileError Span}
    (h : Stands text u before slice after v) (hu : u.Offends e) :
    ∃ e', v.compile = .error e' ∧ e'.map u.mark.within = e ∧ e'.mark = .start := by
  have hmapped : (v.map u.mark.within).Offends e := by rwa [h.map_eq]
  obtain ⟨e', he', hmap⟩ := hmapped.exists_of_map
  exact ⟨e', he'.compile_eq, hmap, he'.mark_eq.trans h.mark_eq⟩

theorem eq_of_offset_eq {us : List (SyntaxTree Span)} {u w : SyntaxTree Span}
    (h : us.Pairwise fun u w => u.mark.offset < w.mark.offset) (hu : u ∈ us) (hw : w ∈ us)
    (hoffset : w.mark.offset = u.mark.offset) : w = u := by
  have hnodup : (us.map fun u => u.mark.offset).Nodup :=
    List.pairwise_map.mpr (h.imp fun hlt => Nat.ne_of_lt hlt)
  exact List.inj_on_of_nodup_map hnodup hw hu hoffset

theorem places_of_parse {text : String} {tree : SyntaxTree Span} (h : parse text = .ok tree) :
    (∀ u ∈ tree.preorder, ∃ before slice after v, Stands text u before slice after v) ∧
    (tree.preorder.Pairwise fun u w => u.mark.offset < w.mark.offset) ∧
    ∀ e, tree.compile = .error e → ∃ u ∈ tree.preorder, u.Offends e ∧ e.mark = u.mark ∧
      (∀ w ∈ tree.preorder, w.mark.offset = e.mark.offset → w = u) ∧
      ∃ before slice after v e', Stands text u before slice after v ∧ v.compile = .error e' ∧
        e'.map u.mark.within = e ∧ e'.mark = .start := by
  have hstands := exists_stands_of_parse h
  have hoffsets := offset_lt_of_parse h
  refine ⟨hstands, hoffsets, ?_⟩
  intro e he
  obtain ⟨_, u, _, hsplit, -, hu⟩ := SyntaxTree.firstOffence_of_compile he
  have hmem : u ∈ tree.preorder := by simp [hsplit]
  obtain ⟨before, slice, after, v, hv⟩ := hstands u hmem
  obtain ⟨e', he', hmap, hmark⟩ := hv.exists_error hu
  refine ⟨u, hmem, hu, hu.mark_eq, ?_, before, slice, after, v, e', hv, he', hmap, hmark⟩
  intro w hw hoffset
  rw [hu.mark_eq] at hoffset
  exact eq_of_offset_eq hoffsets hmem hw hoffset

theorem places_of_parse_swim :
    ∃ tree, parse "// ü\nS(A(stand) ::\n  D(invert // é\n   C(swim \"é\")))" = .ok tree ∧
      tree.compile = .error (.unknownAtomic "swim" ⟨40, 4, 4⟩) ∧
      ∃ u ∈ tree.preorder, u.mark = ⟨40, 4, 4⟩ ∧ ∃ before slice after v e',
        Stands "// ü\nS(A(stand) ::\n  D(invert // é\n   C(swim \"é\")))" u before slice after v ∧
        v.compile = .error e' ∧ e'.mark = .start := by
  -- The name that is not in the catalog is in a leaf on the fourth line, behind two comments.
  have hparse : ∃ tree,
      parse "// ü\nS(A(stand) ::\n  D(invert // é\n   C(swim \"é\")))" = .ok tree ∧
        tree.compile = .error (.unknownAtomic "swim" ⟨40, 4, 4⟩) := by
    rw [parse_eq]
    exact ⟨_, rfl, rfl⟩
  obtain ⟨tree, htree, hcompile⟩ := hparse
  obtain ⟨-, -, herror⟩ := places_of_parse htree
  obtain ⟨u, hu, -, hmark, -, before, slice, after, v, e', hv, he', -, hstart⟩ :=
    herror _ hcompile
  exact ⟨tree, htree, hcompile, u, hu, hmark.symm, before, slice, after, v, e', hv, he', hstart⟩

end Program

end BattleTree
