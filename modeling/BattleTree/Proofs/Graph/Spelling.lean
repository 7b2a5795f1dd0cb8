import BattleTree.Proofs.Catalog.Spelling
import BattleTree.Proofs.Graph.Binding
import BattleTree.Proofs.Program.RoundTrip

/-!
This module contains that programs can be reformatted and requoted: trees that are the same up to
annotations and the spelling of arguments are compiled to the same graph, or are refused for the
same reason at the same node.
-/

namespace BattleTree

namespace SyntaxTree

variable {σ τ : Type}

inductive Respells : SyntaxTree σ → SyntaxTree τ → Prop where
  | sequence {m : σ} {m' : τ} {ts : List (SyntaxTree σ)} {us : List (SyntaxTree τ)} :
      List.Forall₂ Respells ts us → Respells (.sequence m ts) (.sequence m' us)
  | fallback {m : σ} {m' : τ} {ts : List (SyntaxTree σ)} {us : List (SyntaxTree τ)} :
      List.Forall₂ Respells ts us → Respells (.fallback m ts) (.fallback m' us)
  | action {m : σ} {m' : τ} {call call' : Call} :
      call.Respells call' → Respells (.action m call) (.action m' call')
  | condition {m : σ} {m' : τ} {call call' : Call} :
      call.Respells call' → Respells (.condition m call) (.condition m' call')
  | decorator {m : σ} {m' : τ} {call call' : Call} {t : SyntaxTree σ} {u : SyntaxTree τ} :
      call.Respells call' → Respells t u → Respells (.decorator m call t) (.decorator m' call' u)

/--
Two trees that are compiled to one graph, or of which those nodes are at fault that have the same
place in preorder.
-/
inductive CompilesAlike (t : SyntaxTree σ) (u : SyntaxTree τ) : Prop where
  | compiled {g : Graph} : t.compile = .ok g → u.compile = .ok g → CompilesAlike t u
  | refused {before after : List (SyntaxTree σ)} {before' after' : List (SyntaxTree τ)}
      {v : SyntaxTree σ} {w : SyntaxTree τ} {e : CompileError σ} {e' : CompileError τ} :
      t.compile = .error e → u.compile = .error e' → e.Alike e' →
      t.preorder = before ++ v :: after → u.preorder = before' ++ w :: after' →
      before.length = before'.length → v.Offends e → e.mark = v.mark → w.Offends e' →
      e'.mark = w.mark → CompilesAlike t u

mutual

theorem Respells.preorder (t : SyntaxTree σ) {u : SyntaxTree τ} (h : t.Respells u) :
    List.Forall₂ Respells t.preorder u.preorder := by
  cases h with
  | sequence hts => exact .cons (.sequence hts) (Respells.preorderAll _ hts)
  | fallback hts => exact .cons (.fallback hts) (Respells.preorderAll _ hts)
  | action hcall => exact .cons (.action hcall) .nil
  | condition hcall => exact .cons (.condition hcall) .nil
  | decorator hcall ht => exact .cons (.decorator hcall ht) (Respells.preorder _ ht)

theorem Respells.preorderAll (ts : List (SyntaxTree σ)) {us : List (SyntaxTree τ)}
    (h : List.Forall₂ Respells ts us) :
    List.Forall₂ Respells (preorderAll ts) (preorderAll us) := by
  cases h with
  | nil => exact .nil
  | cons ht hts => exact List.rel_append (Respells.preorder _ ht) (Respells.preorderAll _ hts)

end

mutual

theorem Binds.respelled (t : SyntaxTree σ) {u : SyntaxTree τ} {n : Node} (h : t.Respells u)
    (hn : t.Binds n) : u.Binds n := by
  cases h with
  | sequence hts =>
    cases hn with
    | sequence hns => exact .sequence (Binds.respelledAll _ hts hns)
  | fallback hts =>
    cases hn with
    | fallback hns => exact .fallback (Binds.respelledAll _ hts hns)
  | action hcall =>
    cases hn with
    | action hfound hrole => exact .action ((hcall.resolve_eq_ok_iff ..).mp hfound) hrole
  | condition hcall =>
    cases hn with
    | condition hfound hrole => exact .condition ((hcall.resolve_eq_ok_iff ..).mp hfound) hrole
  | decorator hcall ht =>
    cases hn with
    | decorator hfound hn =>
      exact .decorator ((hcall.resolve_eq_ok_iff ..).mp hfound) (Binds.respelled _ ht hn)

theorem Binds.respelledAll (ts : List (SyntaxTree σ)) {us : List (SyntaxTree τ)} {ns : List Node}
    (h : List.Forall₂ Respells ts us) (hns : List.Forall₂ Binds ts ns) :
    List.Forall₂ Binds us ns := by
  cases h with
  | nil =>
    cases hns
    exact .nil
  | cons ht hts =>
    cases hns with
    | cons hn hns => exact .cons (Binds.respelled _ ht hn) (Binds.respelledAll _ hts hns)

end

section

variable {t : SyntaxTree σ} {u : SyntaxTree τ}

theorem Respells.role?_eq (h : t.Respells u) : t.role? = u.role? := by
  cases h <;> rfl

theorem Respells.call?_cases (h : t.Respells u) :
    t.call? = none ∧ u.call? = none ∨
      ∃ call call', t.call? = some call ∧ u.call? = some call' ∧ call.Respells call' := by
  cases h with
  | sequence | fallback => exact .inl ⟨rfl, rfl⟩
  | action hcall | condition hcall | decorator hcall => exact .inr ⟨_, _, rfl, rfl, hcall⟩

theorem Respells.resolves_iff (h : t.Respells u) : t.Resolves ↔ u.Resolves := by
  unfold Resolves
  rw [h.role?_eq]
  rcases h.call?_cases with ⟨ht, hu⟩ | ⟨call, call', ht, hu, hcall⟩
  · rw [ht, hu]
    simp
  · rw [ht, hu]
    simp [hcall.resolve_eq_ok_iff t.mark u.mark]

theorem Respells.alike (h : t.Respells u) {e : CompileError σ} {e' : CompileError τ}
    (ht : t.Offends e) (hu : u.Offends e') : e.Alike e' := by
  rcases h.call?_cases with ⟨hnone, -⟩ | ⟨call, call', hcall, hcall', hrespells⟩
  · cases ht with
    | unresolved hmem | wrongKind hmem => simp [hnone] at hmem
  · cases ht with
    | unresolved hmem herror =>
      obtain rfl := Option.some.inj (hcall.symm.trans hmem)
      cases hu with
      | unresolved hmem' herror' =>
        obtain rfl := Option.some.inj (hcall'.symm.trans hmem')
        exact hrespells.alike_of_resolve _ _ herror herror'
      | wrongKind hmem' _ hfound' _ =>
        obtain rfl := Option.some.inj (hcall'.symm.trans hmem')
        rw [← hrespells.resolve_eq_ok_iff t.mark, herror] at hfound'
        cases hfound'
    | wrongKind hmem hrole hfound _ =>
      obtain rfl := Option.some.inj (hcall.symm.trans hmem)
      rw [hrespells.resolve_eq_ok_iff t.mark u.mark] at hfound
      cases hu with
      | unresolved hmem' herror' =>
        obtain rfl := Option.some.inj (hcall'.symm.trans hmem')
        rw [herror'] at hfound
        cases hfound
      | wrongKind hmem' hrole' hfound' _ =>
        obtain rfl := Option.some.inj (hcall'.symm.trans hmem')
        obtain rfl := Except.ok.inj (hfound.symm.trans hfound')
        rw [Option.mem_def, h.role?_eq] at hrole
        obtain rfl := Option.some.inj (hrole.symm.trans hrole')
        rw [hrespells.name_eq]
        exact .wrongKind

theorem Respells.nodeCount_eq (h : t.Respells u) : t.nodeCount = u.nodeCount := by
  rw [← length_preorder t, ← length_preorder u]
  exact (Respells.preorder t h).length_eq

theorem Respells.compile_eq_ok (h : t.Respells u) {g : Graph} (hg : t.compile = .ok g) :
    u.compile = .ok g := by
  rw [compile_eq_ok_iff] at hg ⊢
  rw [← h.nodeCount_eq]
  exact ⟨Binds.respelled t h hg.1, hg.2⟩

theorem Respells.compilesAlike (h : t.Respells u) : t.CompilesAlike u := by
  cases ht : t.compile with
  | ok g => exact .compiled ht (h.compile_eq_ok ht)
  | error e =>
    cases hu : u.compile with
    | ok g =>
      obtain ⟨before, v, after, hsplit, -, hv⟩ := firstOffence_of_compile ht
      have hmem : v ∈ t.preorder := by simp [hsplit]
      obtain ⟨w, hw, hvw⟩ := exists_of_mem_forall₂ (Respells.preorder t h).flip hmem
      have hresolves := SyntaxTree.exists_compile_iff.mp ⟨g, hu⟩ w hw
      exact absurd (Respells.resolves_iff hvw |>.mpr hresolves) hv.not_resolves
    | error e' =>
      obtain ⟨before, v, after, hsplit, hbefore, hv⟩ := firstOffence_of_compile ht
      obtain ⟨before', w, after', hsplit', hbefore', hw⟩ := firstOffence_of_compile hu
      have hpreorder := Respells.preorder t h
      rw [hsplit, hsplit'] at hpreorder
      obtain ⟨hlength, hvw⟩ := length_eq_of_first (fun _ _ hvw => Respells.resolves_iff hvw)
        hpreorder hbefore hv.not_resolves hbefore' hw.not_resolves
      exact .refused ht hu (hvw.alike hv hw) hsplit hsplit' hlength hv hv.mark_eq hw hw.mark_eq

end

mutual

theorem respells_of_map_eq {ρ : Type} {f : σ → ρ} {g : τ → ρ} (t : SyntaxTree σ)
    (u : SyntaxTree τ) (h : t.map f = u.map g) : t.Respells u := by
  cases t with
  | sequence m ts =>
    cases u with
    | sequence m' us =>
      simp only [map, sequence.injEq] at h
      exact .sequence (respells_of_mapAll_eq ts us h.2)
    | _ => simp [map] at h
  | fallback m ts =>
    cases u with
    | fallback m' us =>
      simp only [map, fallback.injEq] at h
      exact .fallback (respells_of_mapAll_eq ts us h.2)
    | _ => simp [map] at h
  | action m call =>
    cases u with
    | action m' call' =>
      simp only [map, action.injEq] at h
      rw [h.2]
      exact .action (.refl call')
    | _ => simp [map] at h
  | condition m call =>
    cases u with
    | condition m' call' =>
      simp only [map, condition.injEq] at h
      rw [h.2]
      exact .condition (.refl call')
    | _ => simp [map] at h
  | decorator m call t =>
    cases u with
    | decorator m' call' u =>
      simp only [map, decorator.injEq] at h
      rw [h.2.1]
      exact .decorator (.refl call') (respells_of_map_eq t u h.2.2)
    | _ => simp [map] at h

theorem respells_of_mapAll_eq {ρ : Type} {f : σ → ρ} {g : τ → ρ} (ts : List (SyntaxTree σ))
    (us : List (SyntaxTree τ)) (h : mapAll f ts = mapAll g us) : List.Forall₂ Respells ts us := by
  cases ts with
  | nil =>
    cases us with
    | nil => exact .nil
    | cons u us => simp [mapAll] at h
  | cons t ts =>
    cases us with
    | nil => simp [mapAll] at h
    | cons u us =>
      simp only [mapAll, List.cons.injEq] at h
      exact .cons (respells_of_map_eq t u h.1) (respells_of_mapAll_eq ts us h.2)

end

theorem CompilesAlike.program_compile_eq_ok_iff {text text' : String} {t u : SyntaxTree Span}
    (h : t.CompilesAlike u) (ht : Program.parse text = .ok t) (hu : Program.parse text' = .ok u)
    {g : Graph} : Program.compile text = .ok g ↔ Program.compile text' = .ok g := by
  unfold Program.compile
  rw [ht, hu]
  dsimp only
  cases h with
  | compiled hg hg' => rw [hg, hg']
  | refused he he' => simp [he, he']

theorem compile_respelled :
    (∀ (t : SyntaxTree σ) (u : SyntaxTree τ), t.Respells u → t.CompilesAlike u) ∧
    ∀ (text : String) (t : SyntaxTree Span), Program.parse text = .ok t →
      ∃ u, Program.parse t.text = .ok u ∧ t.Respells u ∧ t.CompilesAlike u ∧
        ∀ g, Program.compile text = .ok g ↔ Program.compile t.text = .ok g := by
  constructor
  · intro t u h
    exact h.compilesAlike
  · intro text t ht
    have hdepth := (Program.programText_of_parse ht).2
    obtain ⟨u, hu, hshape⟩ := Program.parse_text hdepth (Program.printable_of_parse ht)
    have hrespells : t.Respells u := respells_of_map_eq t u hshape.symm
    refine ⟨u, hu, hrespells, hrespells.compilesAlike, ?_⟩
    intro g
    exact hrespells.compilesAlike.program_compile_eq_ok_iff ht hu

def engageQuoted : SyntaxTree Unit :=
  .fallback ()
    [.sequence ()
      [.condition () ⟨"in_sight", [.quoted "foe"]⟩, .action () ⟨"attack", [.word "closest"]⟩],
     .decorator () ⟨"invert", []⟩ (.condition () ⟨"is_armed", [.quoted "self"]⟩),
     .action () ⟨"stand", []⟩]

theorem compile_respelled_engage :
    engage.Respells engageQuoted ∧ engage.CompilesAlike engageQuoted ∧
      ∃ t u, Program.parse "A(attack // near\n \"closest\")" = .ok t ∧
        Program.parse t.text = .ok u ∧ t.Respells u ∧ t.CompilesAlike u := by
  have hrespells : engage.Respells engageQuoted := by
    refine .fallback (.cons (.sequence (.cons ?_ (.cons ?_ .nil)))
      (.cons (.decorator ⟨rfl, .nil⟩ ?_) (.cons ?_ .nil)))
    · exact .condition ⟨rfl, .cons rfl .nil⟩
    · exact .action ⟨rfl, .cons rfl .nil⟩
    · exact .condition ⟨rfl, .cons rfl .nil⟩
    · exact .action ⟨rfl, .nil⟩
  have hparse : ∃ t, Program.parse "A(attack // near\n \"closest\")" = .ok t := by
    rw [Program.parse_eq]
    exact ⟨_, rfl⟩
  obtain ⟨t, ht⟩ := hparse
  obtain ⟨u, hu, htu, halike, -⟩ := (compile_respelled (σ := Nat) (τ := Unit)).2 _ t ht
  exact ⟨hrespells, compile_respelled.1 _ _ hrespells, t, u, ht, hu, htu, halike⟩

end SyntaxTree

end BattleTree
