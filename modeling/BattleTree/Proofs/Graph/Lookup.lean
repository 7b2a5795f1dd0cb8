import BattleTree.Proofs.Graph.Deciding

/-!
This module contains that looking up a number is exact: where numbers grow in preorder, it finds the
node that has the number, and finds nothing if there is none. In a compiled tree the number of a
node is its place in the preorder.
-/

namespace BattleTree

namespace Node

theorem exists_of_findAt? {id : NodeId} {ns : List Node} {place : Nat} {m : Node}
    (h : findAt? id ns place = some m) : ∃ n ∈ ns, n.find? id = some m := by
  induction ns generalizing place with
  | nil => simp [findAt?] at h
  | cons n ns ih =>
    cases place with
    | zero =>
      rw [findAt?] at h
      split at h
      · exact ⟨n, List.mem_cons_self, h⟩
      · cases h
    | succ place =>
      rw [findAt?] at h
      obtain ⟨c, hc, hfind⟩ := ih h
      exact ⟨c, List.mem_cons_of_mem n hc, hfind⟩

theorem mem_of_find? {n m : Node} {id : NodeId} (h : n.find? id = some m) :
    m ∈ n.preorder ∧ m.id = id := by
  induction n using childInduction with
  | step n ih =>
    rw [find?_eq] at h
    split at h
    · next hid =>
      obtain rfl := Option.some.inj h
      exact ⟨self_mem_preorder n, hid⟩
    · obtain ⟨c, hc, hfind⟩ := exists_of_findAt? h
      obtain ⟨hm, hid⟩ := ih c hc hfind
      exact ⟨mem_preorder_of_mem_children hc hm, hid⟩

theorem find?_eq_some_iff {n m : Node} {id : NodeId} (h : Ascending n.preorder) :
    n.find? id = some m ↔ m ∈ n.preorder ∧ m.id = id := by
  constructor
  · exact mem_of_find?
  · rintro ⟨hm, rfl⟩
    exact find?_of_mem h hm

theorem find?_eq_none_iff {n : Node} {id : NodeId} (h : Ascending n.preorder) :
    n.find? id = none ↔ ∀ m ∈ n.preorder, m.id ≠ id := by
  rw [Option.eq_none_iff_forall_ne_some]
  apply forall_congr'
  intro m
  rw [Ne, find?_eq_some_iff h, not_and]

theorem find?_of_mem_preorder {root n m : Node} (h : Ascending root.preorder)
    (hn : n ∈ root.preorder) (hm : m ∈ root.preorder) :
    (n.find? m.id = some m ↔ m ∈ n.preorder) ∧ (n.find? m.id = none ↔ m ∉ n.preorder) := by
  have hsub := h.of_mem_preorder hn
  rw [find?_eq_some_iff hsub, find?_eq_none_iff hsub]
  refine ⟨and_iff_left rfl, ?_, ?_⟩
  · intro hnone hmem
    exact hnone m hmem rfl
  · intro hmem m' hm' hid
    rw [eq_of_id_eq h (preorder_subset hn hm') hm hid] at hm'
    exact hmem hm'

end Node

namespace Graph

variable {σ : Type} {t : SyntaxTree σ} {g : Graph}

theorem preorder_getElem?_eq_some_iff (h : t.compile = .ok g) (hsize : t.nodeCount < UInt32.size)
    {i : Nat} {m : Node} :
    g.root.preorder[i]? = some m ↔ m ∈ g.root.preorder ∧ m.id.toNat = i := by
  have hnumber {j : Nat} {n : Node} (hn : g.root.preorder[j]? = some n) : n.id.toNat = j := by
    have hids := SyntaxTree.toNat_id_preorder_of_compile h hsize
    have hget : (g.root.preorder.map fun n => n.id.toNat)[j]? = some n.id.toNat := by
      rw [List.getElem?_map, hn, Option.map_some]
    rw [hids] at hget
    obtain ⟨hj, hget⟩ := List.getElem?_eq_some_iff.mp hget
    rw [← hget, List.getElem_range]
  constructor
  · intro hm
    exact ⟨List.mem_of_getElem? hm, hnumber hm⟩
  · rintro ⟨hm, rfl⟩
    obtain ⟨j, hj⟩ := List.mem_iff_getElem?.mp hm
    rw [hnumber hj]
    exact hj

theorem node?_eq_preorder_getElem? (h : t.compile = .ok g) (hsize : t.nodeCount < UInt32.size) :
    g.root.preorder.length = g.nodeCount.toNat ∧
      (∀ id : NodeId, g.node? id = g.root.preorder[id.toNat]?) ∧
      (∀ n ∈ g.root.preorder, ∀ m ∈ g.root.preorder,
        (n.find? m.id = some m ↔ m ∈ n.preorder) ∧ (n.find? m.id = none ↔ m ∉ n.preorder)) ∧
      ∀ n : Node, Node.Ascending n.preorder → ∀ id : NodeId,
        (∀ m, n.find? id = some m ↔ m ∈ n.preorder ∧ m.id = id) ∧
          (n.find? id = none ↔ ∀ m ∈ n.preorder, m.id ≠ id) := by
  have hascending := ascending_of_compile h hsize
  refine ⟨?_, ?_, ?_, ?_⟩
  · obtain ⟨-, hids, hcount⟩ := SyntaxTree.compile_eq_ok_iff.mp h
    rw [hcount, UInt32.toNat_toUInt64, UInt32.toNat_ofNat_of_lt' hsize,
      ← List.length_map Node.id, hids, NodeId.length_block]
  · intro id
    apply Option.ext
    intro m
    rw [preorder_getElem?_eq_some_iff h hsize, UInt32.toNat_inj]
    exact Node.find?_eq_some_iff hascending
  · intro n hn m hm
    exact Node.find?_of_mem_preorder hascending hn hm
  · intro n hn id
    exact ⟨fun m => Node.find?_eq_some_iff hn, Node.find?_eq_none_iff hn⟩

theorem node?_eq_preorder_getElem?_engage :
    let sparse : Node := .sequence 3 [.leaf 5 .stand, .fallback 9 [.leaf 12 .explore]]
    ∃ g, SyntaxTree.engage.compile = .ok g ∧ SyntaxTree.engage.nodeCount < UInt32.size ∧
      (∀ id : NodeId, g.node? id = g.root.preorder[id.toNat]?) ∧
      (∀ n ∈ g.root.preorder, ∀ m ∈ g.root.preorder,
        (n.find? m.id = some m ↔ m ∈ n.preorder) ∧ (n.find? m.id = none ↔ m ∉ n.preorder)) ∧
      Node.Ascending sparse.preorder ∧ sparse.find? 12 = some (.leaf 12 .explore) ∧
      sparse.find? 7 = none := by
  -- The tree that is not compiled leaves out numbers.
  intro sparse
  have hsize : SyntaxTree.engage.nodeCount < UInt32.size := by decide
  have hsparse : Node.Ascending sparse.preorder := by
    simp [sparse, Node.Ascending, Node.preorder, Node.preorderAll, Node.id]
  obtain ⟨-, hnode, hsubtree, hgeneral⟩ :=
    @node?_eq_preorder_getElem? _ SyntaxTree.engage _ rfl hsize
  refine ⟨_, rfl, hsize, hnode, hsubtree, hsparse, ?_, ?_⟩
  · rw [(hgeneral sparse hsparse 12).1]
    simp [sparse, Node.preorder, Node.preorderAll, Node.id]
  · rw [(hgeneral sparse hsparse 7).2]
    simp [sparse, Node.preorder, Node.preorderAll, Node.id]

end Graph

end BattleTree
