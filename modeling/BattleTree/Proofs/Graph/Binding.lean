import BattleTree.Graph.Compile
import BattleTree.Proofs.Except
import BattleTree.Proofs.Graph.Numbering

/-!
This module contains the meaning of compilation: a tree is compiled to nodes of the same shape that
hold what its calls are bound to and are numbered in preorder, or else it is refused because of the
first node in preorder whose call cannot be bound.
-/

namespace BattleTree

namespace SyntaxTree

variable {σ : Type}

def role? : SyntaxTree σ → Option Role
  | action .. => some .action
  | condition .. => some .condition
  | decorator .. => some .transform
  | sequence .. | fallback .. => none

def Resolves (t : SyntaxTree σ) : Prop :=
  ∀ call ∈ t.call?, ∃ found, resolve call t.mark = .ok found ∧ t.role? = some found.role

/-- Why the call of a node cannot be bound. -/
inductive Offends (t : SyntaxTree σ) : CompileError σ → Prop where
  | unresolved {call : Call} {e : CompileError σ} :
      call ∈ t.call? → resolve call t.mark = .error e → Offends t e
  | wrongKind {call : Call} {expected : Role} {found : Resolved} :
      call ∈ t.call? → expected ∈ t.role? → resolve call t.mark = .ok found →
      found.role ≠ expected → Offends t (.wrongKind call.name expected found.role t.mark)

/-- A tree and nodes of the same shape that hold what its calls are bound to. -/
inductive Binds : SyntaxTree σ → Node → Prop where
  | sequence {m : σ} {ts : List (SyntaxTree σ)} {id : NodeId} {ns : List Node} :
      List.Forall₂ Binds ts ns → Binds (.sequence m ts) (.sequence id ns)
  | fallback {m : σ} {ts : List (SyntaxTree σ)} {id : NodeId} {ns : List Node} :
      List.Forall₂ Binds ts ns → Binds (.fallback m ts) (.fallback id ns)
  | action {m : σ} {call : Call} {id : NodeId} {atomic : Atomic} :
      resolve call m = .ok (.leaf atomic) → (Resolved.leaf atomic).role = .action →
      Binds (.action m call) (.leaf id atomic)
  | condition {m : σ} {call : Call} {id : NodeId} {atomic : Atomic} :
      resolve call m = .ok (.leaf atomic) → (Resolved.leaf atomic).role = .condition →
      Binds (.condition m call) (.leaf id atomic)
  | decorator {m : σ} {call : Call} {t : SyntaxTree σ} {id : NodeId} {transform : Transform}
      {n : Node} :
      resolve call m = .ok (.transform transform) → Binds t n →
      Binds (.decorator m call t) (.decorator id transform n)

def FirstOffence (us : List (SyntaxTree σ)) (e : CompileError σ) : Prop :=
  ∃ before u after, us = before ++ u :: after ∧ (∀ x ∈ before, x.Resolves) ∧ u.Offends e

theorem Offends.not_resolves {t : SyntaxTree σ} {e : CompileError σ} (h : t.Offends e) :
    ¬t.Resolves := by
  intro hresolves
  cases h with
  | unresolved hcall herror =>
    obtain ⟨found, hfound, -⟩ := hresolves _ hcall
    rw [herror] at hfound
    cases hfound
  | wrongKind hcall hrole hok hne =>
    obtain ⟨found, hfound, hexpected⟩ := hresolves _ hcall
    rw [hok] at hfound
    obtain rfl := Except.ok.inj hfound
    rw [Option.mem_def, hexpected] at hrole
    exact hne (Option.some.inj hrole)

theorem mark_of_resolve {call : Call} {m : σ} {e : CompileError σ}
    (h : resolve call m = .error e) : e.mark = m := by
  unfold resolve at h
  split at h
  · obtain rfl := Except.error.inj h
    rfl
  · split at h
    · cases h
    · obtain rfl := Except.error.inj h
      rfl

theorem Offends.mark_eq {t : SyntaxTree σ} {e : CompileError σ} (h : t.Offends e) :
    e.mark = t.mark := by
  cases h with
  | unresolved _ herror => exact mark_of_resolve herror
  | wrongKind => rfl

section

variable {us vs : List (SyntaxTree σ)} {u : SyntaxTree σ} {e : CompileError σ}

theorem FirstOffence.here (h : u.Offends e) : FirstOffence (u :: us) e :=
  ⟨[], u, us, rfl, List.forall_mem_nil _, h⟩

theorem FirstOffence.append_right (h : FirstOffence us e) : FirstOffence (us ++ vs) e := by
  obtain ⟨before, v, after, rfl, hbefore, hv⟩ := h
  exact ⟨before, v, after ++ vs, by simp, hbefore, hv⟩

theorem FirstOffence.append_left (hus : ∀ x ∈ us, x.Resolves) (h : FirstOffence vs e) :
    FirstOffence (us ++ vs) e := by
  obtain ⟨before, v, after, rfl, hbefore, hv⟩ := h
  exact ⟨us ++ before, v, after, by simp, List.forall_mem_append.mpr ⟨hus, hbefore⟩, hv⟩

theorem FirstOffence.later (hu : u.Resolves) (h : FirstOffence us e) : FirstOffence (u :: us) e :=
  append_left (List.forall_mem_singleton.mpr hu) h

end

theorem compileLeaf_eq_ok_iff {expected : Role} {id : NodeId} {call : Call} {m : σ} {n : Node} :
    compileLeaf expected id call m = .ok n ↔
      ∃ atomic, resolve call m = .ok (.leaf atomic) ∧ (Resolved.leaf atomic).role = expected ∧
        n = .leaf id atomic := by
  unfold compileLeaf
  rw [bind_eq_ok_iff]
  constructor
  · rintro ⟨found, hfound, h⟩
    split at h
    · next atomic =>
      split at h
      · next hrole => exact ⟨atomic, hfound, hrole, (Except.ok.inj h).symm⟩
      · cases h
    · cases h
  · rintro ⟨atomic, hatomic, hrole, rfl⟩
    exact ⟨.leaf atomic, hatomic, if_pos hrole⟩

theorem compileTransform_eq_ok_iff {call : Call} {m : σ} {transform : Transform} :
    compileTransform call m = .ok transform ↔ resolve call m = .ok (.transform transform) := by
  unfold compileTransform
  rw [bind_eq_ok_iff]
  constructor
  · rintro ⟨found, hfound, h⟩
    split at h
    · obtain rfl := Except.ok.inj h
      exact hfound
    · cases h
  · intro h
    exact ⟨.transform transform, h, rfl⟩

theorem offends_of_compileLeaf {t : SyntaxTree σ} {expected : Role} {id : NodeId} {call : Call}
    {e : CompileError σ} (hcall : call ∈ t.call?) (hexpected : expected ∈ t.role?)
    (hleaf : expected ≠ .transform) (h : compileLeaf expected id call t.mark = .error e) :
    t.Offends e := by
  unfold compileLeaf at h
  rcases bind_eq_error_iff.mp h with herror | ⟨found, hfound, h⟩
  · exact .unresolved hcall herror
  · split at h
    · next atomic =>
      split at h
      · cases h
      · next hrole =>
        obtain rfl := Except.error.inj h
        exact .wrongKind hcall hexpected hfound hrole
    · next hnot =>
      obtain rfl := Except.error.inj h
      apply Offends.wrongKind hcall hexpected hfound
      cases found with
      | leaf atomic => exact absurd rfl (hnot atomic)
      | transform transform => exact hleaf.symm

theorem role_leaf_ne_transform (atomic : Atomic) : (Resolved.leaf atomic).role ≠ .transform := by
  cases atomic <;> simp [Resolved.role, Atomic.isAction]

theorem offends_of_compileTransform {m : σ} {call : Call} {t : SyntaxTree σ} {e : CompileError σ}
    (h : compileTransform call m = .error e) : (decorator m call t).Offends e := by
  unfold compileTransform at h
  rcases bind_eq_error_iff.mp h with herror | ⟨found, hfound, h⟩
  · exact .unresolved rfl herror
  · split at h
    · cases h
    · next hnot =>
      obtain rfl := Except.error.inj h
      apply Offends.wrongKind rfl rfl hfound
      cases found with
      | leaf atomic => exact role_leaf_ne_transform atomic
      | transform transform => exact absurd rfl (hnot transform)

mutual

theorem Binds.resolves (t : SyntaxTree σ) {n : Node} (h : t.Binds n) :
    ∀ u ∈ t.preorder, u.Resolves := by
  cases h with
  | sequence hts | fallback hts =>
    exact List.forall_mem_cons.mpr ⟨by simp [Resolves, call?], Binds.resolvesAll _ hts⟩
  | action hcall hrole | condition hcall hrole =>
    rw [preorder, List.forall_mem_singleton]
    rintro _ ⟨⟩
    exact ⟨_, hcall, congrArg some hrole.symm⟩
  | decorator hcall ht =>
    refine List.forall_mem_cons.mpr ⟨?_, Binds.resolves _ ht⟩
    rintro _ ⟨⟩
    exact ⟨_, hcall, rfl⟩

theorem Binds.resolvesAll (ts : List (SyntaxTree σ)) {ns : List Node}
    (h : List.Forall₂ Binds ts ns) : ∀ u ∈ preorderAll ts, u.Resolves := by
  cases h with
  | nil => exact List.forall_mem_nil _
  | cons ht hts =>
    exact List.forall_mem_append.mpr ⟨Binds.resolves _ ht, Binds.resolvesAll _ hts⟩

end

mutual

theorem Binds.length_preorder (t : SyntaxTree σ) {n : Node} (h : t.Binds n) :
    n.preorder.length = t.nodeCount := by
  cases h with
  | sequence hts | fallback hts =>
    rw [Node.preorder, nodeCount, List.length_cons, Binds.length_preorderAll _ hts, Nat.add_comm]
  | action | condition => rw [Node.preorder, nodeCount, List.length_singleton]
  | decorator _ ht =>
    rw [Node.preorder, nodeCount, List.length_cons, Binds.length_preorder _ ht, Nat.add_comm]

theorem Binds.length_preorderAll (ts : List (SyntaxTree σ)) {ns : List Node}
    (h : List.Forall₂ Binds ts ns) : (Node.preorderAll ns).length = nodeCountAll ts := by
  cases h with
  | nil => rfl
  | cons ht hts =>
    rw [Node.preorderAll, nodeCountAll, List.length_append, Binds.length_preorder _ ht,
      Binds.length_preorderAll _ hts]

end

mutual

theorem binds_of_compileFrom (t : SyntaxTree σ) {next after : NodeId} {n : Node}
    (h : t.compileFrom next = .ok (n, after)) :
    t.Binds n ∧ n.preorder.map Node.id = NodeId.block next t.nodeCount ∧
      after = next + UInt32.ofNat t.nodeCount := by
  cases t with
  | sequence m ts | fallback m ts =>
    rw [compileFrom] at h
    obtain ⟨⟨ns, _⟩, hns, h⟩ := bind_eq_ok_iff.mp h
    obtain ⟨rfl, rfl⟩ := Prod.mk.inj (Except.ok.inj h)
    obtain ⟨hbinds, hids, hafter⟩ := binds_of_compileAllFrom ts hns
    rw [Node.preorder, nodeCount, List.map_cons, NodeId.block_one_add, hids, UInt32.ofNat_add,
      ← UInt32.add_assoc]
    refine ⟨?_, rfl, hafter⟩
    constructor
    exact hbinds
  | action m call | condition m call =>
    rw [compileFrom] at h
    obtain ⟨leaf, hleaf, h⟩ := bind_eq_ok_iff.mp h
    obtain ⟨rfl, rfl⟩ := Prod.mk.inj (Except.ok.inj h)
    obtain ⟨atomic, hcall, hrole, rfl⟩ := compileLeaf_eq_ok_iff.mp hleaf
    refine ⟨?_, ?_, rfl⟩
    · constructor
      · exact hcall
      · exact hrole
    · rw [Node.preorder, nodeCount, NodeId.block_one, List.map_singleton]
      rfl
  | decorator m call t =>
    rw [compileFrom] at h
    obtain ⟨transform, htransform, h⟩ := bind_eq_ok_iff.mp h
    obtain ⟨⟨n, _⟩, hn, h⟩ := bind_eq_ok_iff.mp h
    obtain ⟨rfl, rfl⟩ := Prod.mk.inj (Except.ok.inj h)
    obtain ⟨hbinds, hids, hafter⟩ := binds_of_compileFrom t hn
    rw [Node.preorder, nodeCount, List.map_cons, NodeId.block_one_add, hids, UInt32.ofNat_add,
      ← UInt32.add_assoc]
    exact ⟨.decorator (compileTransform_eq_ok_iff.mp htransform) hbinds, rfl, hafter⟩

theorem binds_of_compileAllFrom (ts : List (SyntaxTree σ)) {next after : NodeId} {ns : List Node}
    (h : compileAllFrom next ts = .ok (ns, after)) :
    List.Forall₂ Binds ts ns ∧
      (Node.preorderAll ns).map Node.id = NodeId.block next (nodeCountAll ts) ∧
      after = next + UInt32.ofNat (nodeCountAll ts) := by
  cases ts with
  | nil =>
    obtain ⟨rfl, rfl⟩ := Prod.mk.inj (Except.ok.inj h)
    exact ⟨.nil, rfl, (UInt32.add_zero _).symm⟩
  | cons t ts =>
    rw [compileAllFrom] at h
    obtain ⟨⟨n, mid⟩, hn, h⟩ := bind_eq_ok_iff.mp h
    obtain ⟨⟨ns, _⟩, hns, h⟩ := bind_eq_ok_iff.mp h
    obtain ⟨rfl, rfl⟩ := Prod.mk.inj (Except.ok.inj h)
    -- The counter after the first tree says where the block of the others starts.
    obtain ⟨hbind, hids, rfl⟩ := binds_of_compileFrom t hn
    obtain ⟨hbinds, hidss, rfl⟩ := binds_of_compileAllFrom ts hns
    rw [Node.preorderAll, nodeCountAll, List.map_append, NodeId.block_add, hids, hidss,
      UInt32.ofNat_add, UInt32.add_assoc]
    exact ⟨.cons hbind hbinds, rfl, rfl⟩

end

mutual

theorem compileFrom_of_binds (t : SyntaxTree σ) {next : NodeId} {n : Node} (h : t.Binds n)
    (hids : n.preorder.map Node.id = NodeId.block next t.nodeCount) :
    t.compileFrom next = .ok (n, next + UInt32.ofNat t.nodeCount) := by
  cases h with
  | sequence hts | fallback hts =>
    rw [Node.preorder, nodeCount, List.map_cons, NodeId.block_one_add] at hids
    obtain ⟨rfl, hids⟩ := List.cons.inj hids
    rw [compileFrom, compileAllFrom_of_binds _ hts hids, nodeCount, UInt32.ofNat_add,
      ← UInt32.add_assoc]
    rfl
  | action hcall hrole | condition hcall hrole =>
    rw [Node.preorder, nodeCount, NodeId.block_one, List.map_singleton] at hids
    obtain rfl := List.singleton_inj.mp hids
    rw [compileFrom, compileLeaf_eq_ok_iff.mpr ⟨_, hcall, hrole, rfl⟩]
    rfl
  | decorator hcall ht =>
    rw [Node.preorder, nodeCount, List.map_cons, NodeId.block_one_add] at hids
    obtain ⟨rfl, hids⟩ := List.cons.inj hids
    rw [compileFrom, compileTransform_eq_ok_iff.mpr hcall, nodeCount, UInt32.ofNat_add,
      ← UInt32.add_assoc]
    dsimp only [bind, Except.bind]
    rw [compileFrom_of_binds _ ht hids]
    rfl

theorem compileAllFrom_of_binds (ts : List (SyntaxTree σ)) {next : NodeId} {ns : List Node}
    (h : List.Forall₂ Binds ts ns)
    (hids : (Node.preorderAll ns).map Node.id = NodeId.block next (nodeCountAll ts)) :
    compileAllFrom next ts = .ok (ns, next + UInt32.ofNat (nodeCountAll ts)) := by
  cases h with
  | nil =>
    have hzero : next + UInt32.ofNat (nodeCountAll (σ := σ) []) = next := UInt32.add_zero next
    rw [compileAllFrom, hzero]
    rfl
  | cons ht hts =>
    rw [Node.preorderAll, nodeCountAll, List.map_append, NodeId.block_add] at hids
    -- The first tree has as many nodes as numbers, so both lists are split at the same place.
    obtain ⟨hid, hids⟩ := List.append_inj hids (by
      rw [List.length_map, NodeId.length_block, ht.length_preorder])
    rw [compileAllFrom, compileFrom_of_binds _ ht hid, nodeCountAll, UInt32.ofNat_add,
      ← UInt32.add_assoc]
    dsimp only [bind, Except.bind]
    rw [compileAllFrom_of_binds _ hts hids]
    rfl

end

mutual

theorem firstOffence_of_compileFrom (t : SyntaxTree σ) {next : NodeId} {e : CompileError σ}
    (h : t.compileFrom next = .error e) : FirstOffence t.preorder e := by
  cases t with
  | sequence m ts | fallback m ts =>
    rw [compileFrom] at h
    rcases bind_eq_error_iff.mp h with h | ⟨_, _, h⟩
    · exact .later (by simp [Resolves, call?]) (firstOffence_of_compileAllFrom ts h)
    · cases h
  | action m call | condition m call =>
    rw [compileFrom] at h
    rcases bind_eq_error_iff.mp h with h | ⟨_, _, h⟩
    · exact .here (offends_of_compileLeaf rfl rfl (by simp) h)
    · cases h
  | decorator m call t =>
    rw [compileFrom] at h
    rcases bind_eq_error_iff.mp h with h | ⟨transform, htransform, h⟩
    · exact .here (offends_of_compileTransform h)
    · rcases bind_eq_error_iff.mp h with h | ⟨_, _, h⟩
      · refine .later ?_ (firstOffence_of_compileFrom t h)
        rintro _ ⟨⟩
        exact ⟨_, compileTransform_eq_ok_iff.mp htransform, rfl⟩
      · cases h

theorem firstOffence_of_compileAllFrom (ts : List (SyntaxTree σ)) {next : NodeId}
    {e : CompileError σ} (h : compileAllFrom next ts = .error e) :
    FirstOffence (preorderAll ts) e := by
  cases ts with
  | nil => cases h
  | cons t ts =>
    rw [compileAllFrom] at h
    rcases bind_eq_error_iff.mp h with h | ⟨⟨n, mid⟩, hn, h⟩
    · exact (firstOffence_of_compileFrom t h).append_right
    · -- The first tree is compiled, so all of its nodes come before the offence.
      rcases bind_eq_error_iff.mp h with h | ⟨_, _, h⟩
      · exact .append_left (binds_of_compileFrom t hn).1.resolves
          (firstOffence_of_compileAllFrom ts h)
      · cases h

end

theorem compileFrom_eq_ok_iff {t : SyntaxTree σ} {next after : NodeId} {n : Node} :
    t.compileFrom next = .ok (n, after) ↔
      t.Binds n ∧ n.preorder.map Node.id = NodeId.block next t.nodeCount ∧
        after = next + UInt32.ofNat t.nodeCount := by
  constructor
  · exact binds_of_compileFrom t
  · rintro ⟨hbinds, hids, rfl⟩
    exact compileFrom_of_binds t hbinds hids

theorem compile_eq_ok_iff {t : SyntaxTree σ} {g : Graph} :
    t.compile = .ok g ↔
      t.Binds g.root ∧ g.root.preorder.map Node.id = NodeId.block 0 t.nodeCount ∧
        g.nodeCount = (UInt32.ofNat t.nodeCount).toUInt64 := by
  unfold compile
  rw [bind_eq_ok_iff]
  constructor
  · rintro ⟨⟨root, after⟩, hroot, h⟩
    obtain rfl := Except.ok.inj h
    obtain ⟨hbinds, hids, rfl⟩ := compileFrom_eq_ok_iff.mp hroot
    rw [UInt32.zero_add]
    exact ⟨hbinds, hids, rfl⟩
  · rintro ⟨hbinds, hids, hcount⟩
    refine ⟨_, compileFrom_of_binds t hbinds hids, ?_⟩
    dsimp only
    rw [UInt32.zero_add, ← hcount]
    rfl

theorem toNat_id_preorder_of_compile {t : SyntaxTree σ} {g : Graph} (h : t.compile = .ok g)
    (hsize : t.nodeCount < UInt32.size) :
    g.root.preorder.map (fun n => n.id.toNat) = List.range t.nodeCount := by
  obtain ⟨-, hids, -⟩ := compile_eq_ok_iff.mp h
  rw [← NodeId.map_toNat_block_zero (Nat.le_of_lt hsize), ← hids, List.map_map]
  rfl

theorem firstOffence_of_compile {t : SyntaxTree σ} {e : CompileError σ}
    (h : t.compile = .error e) : FirstOffence t.preorder e := by
  unfold compile at h
  rcases bind_eq_error_iff.mp h with h | ⟨_, _, h⟩
  · exact firstOffence_of_compileFrom t h
  · cases h

theorem exists_compile_iff {t : SyntaxTree σ} :
    (∃ g, t.compile = .ok g) ↔ ∀ u ∈ t.preorder, u.Resolves := by
  constructor
  · rintro ⟨g, hg⟩
    exact (compile_eq_ok_iff.mp hg).1.resolves
  · intro h
    cases hcompile : t.compile with
    | ok g => exact ⟨g, rfl⟩
    | error e =>
      obtain ⟨before, u, after, hsplit, -, hu⟩ := firstOffence_of_compile hcompile
      exact absurd (h u (by simp [hsplit])) hu.not_resolves

theorem compile_spec (t : SyntaxTree σ) (h : t.nodeCount < UInt32.size) :
    ((∃ g, t.compile = .ok g) ↔ ∀ u ∈ t.preorder, u.Resolves) ∧
    (∀ g, t.compile = .ok g →
      t.Binds g.root ∧ g.root.preorder.map (fun n => n.id.toNat) = List.range t.nodeCount ∧
        g.nodeCount.toNat = t.nodeCount) ∧
    ∀ e, t.compile = .error e → ∃ before u after, t.preorder = before ++ u :: after ∧
      (∀ x ∈ before, x.Resolves) ∧ u.Offends e ∧ e.mark = u.mark := by
  refine ⟨exists_compile_iff, ?_, ?_⟩
  · intro g hg
    obtain ⟨hbinds, -, hcount⟩ := compile_eq_ok_iff.mp hg
    refine ⟨hbinds, toNat_id_preorder_of_compile hg h, ?_⟩
    rw [hcount, UInt32.toNat_toUInt64, UInt32.toNat_ofNat_of_lt' h]
  · intro e he
    obtain ⟨before, u, after, hsplit, hbefore, hu⟩ := firstOffence_of_compile he
    exact ⟨before, u, after, hsplit, hbefore, hu, hu.mark_eq⟩

def engage : SyntaxTree Nat :=
  .fallback 0
    [.sequence 1
      [.condition 2 ⟨"in_sight", [.word "foe"]⟩, .action 3 ⟨"attack", [.quoted "closest"]⟩],
     .decorator 4 ⟨"invert", []⟩ (.condition 5 ⟨"is_armed", [.ref .self]⟩),
     .action 6 ⟨"stand", []⟩]

theorem compile_spec_engage :
    engage.nodeCount < UInt32.size ∧ ∃ g, engage.compile = .ok g ∧ engage.Binds g.root ∧
      g.root.preorder.map (fun n => n.id.toNat) = List.range 7 ∧ g.nodeCount.toNat = 7 := by
  have hsize : engage.nodeCount < UInt32.size := by decide
  have hcompile : ∃ g, engage.compile = .ok g := ⟨_, rfl⟩
  obtain ⟨g, hg⟩ := hcompile
  exact ⟨hsize, g, hg, (compile_spec engage hsize).2.1 g hg⟩

end SyntaxTree

end BattleTree
