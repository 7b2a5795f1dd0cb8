import BattleTree.Graph.Node
import Mathlib.Data.List.Basic

/-!
This module contains the numbers of nodes: blocks of consecutive numbers, trees with other numbers,
and that the search for a number finds the node that has it if numbers grow in preorder.
-/

namespace BattleTree

namespace NodeId

def block (next : NodeId) (count : Nat) : List NodeId :=
  (List.range count).map fun i => next + UInt32.ofNat i

theorem length_block (next : NodeId) (count : Nat) : (block next count).length = count := by
  simp [block]

theorem block_add (next : NodeId) (m n : Nat) :
    block next (m + n) = block next m ++ block (next + UInt32.ofNat m) n := by
  simp [block, List.range_add, UInt32.add_assoc]

theorem block_one_add (next : NodeId) (n : Nat) :
    block next (1 + n) = next :: block (next + 1) n := by
  rw [block_add]
  simp [block]

theorem block_one (next : NodeId) : block next 1 = [next] := by
  simp [block]

theorem map_block (k next : NodeId) (count : Nat) :
    (block next count).map (k + ·) = block (k + next) count := by
  simp [block, UInt32.add_assoc]

theorem map_toNat_block_zero {count : Nat} (h : count ≤ UInt32.size) :
    (block 0 count).map UInt32.toNat = List.range count := by
  rw [block, List.map_map]
  conv_rhs => rw [← List.map_id (List.range count)]
  apply List.map_congr_left
  intro i hi
  rw [List.mem_range] at hi
  simp only [Function.comp_apply, UInt32.zero_add, id_eq]
  exact UInt32.toNat_ofNat_of_lt' (by omega)

theorem pairwise_block_zero {count : Nat} (h : count ≤ UInt32.size) :
    (block 0 count).Pairwise (· < ·) := by
  have hrange := List.pairwise_lt_range (n := count)
  rw [← map_toNat_block_zero h, List.pairwise_map] at hrange
  apply hrange.imp
  intro a b hab
  exact UInt32.lt_iff_toNat_lt.mpr hab

end NodeId

namespace Node

mutual

def renumber (f : NodeId → NodeId) : Node → Node
  | sequence id children => sequence (f id) (renumberAll f children)
  | fallback id children => fallback (f id) (renumberAll f children)
  | decorator id transform child => decorator (f id) transform (child.renumber f)
  | leaf id atomic => leaf (f id) atomic

def renumberAll (f : NodeId → NodeId) : List Node → List Node
  | [] => []
  | n :: ns => n.renumber f :: renumberAll f ns

end

mutual

theorem map_id_preorder_renumber (f : NodeId → NodeId) (n : Node) :
    (n.renumber f).preorder.map Node.id = (n.preorder.map Node.id).map f := by
  cases n with
  | sequence id ns | fallback id ns =>
    simp [renumber, preorder, Node.id, map_id_preorderAll_renumberAll f ns]
  | decorator id transform n => simp [renumber, preorder, Node.id, map_id_preorder_renumber f n]
  | leaf id atomic => simp [renumber, preorder, Node.id]

theorem map_id_preorderAll_renumberAll (f : NodeId → NodeId) (ns : List Node) :
    (preorderAll (renumberAll f ns)).map Node.id = ((preorderAll ns).map Node.id).map f := by
  cases ns with
  | nil => simp [renumberAll, preorderAll]
  | cons n ns =>
    simp [renumberAll, preorderAll, map_id_preorder_renumber f n,
      map_id_preorderAll_renumberAll f ns]

end

mutual

@[elab_as_elim]
theorem childInduction {motive : Node → Prop}
    (step : ∀ n, (∀ c ∈ n.children, motive c) → motive n) (n : Node) : motive n := by
  apply step
  cases n with
  | sequence id ns | fallback id ns => exact childInductionAll step ns
  | decorator id transform n => exact List.forall_mem_singleton.mpr (childInduction step n)
  | leaf id atomic => exact List.forall_mem_nil motive

theorem childInductionAll {motive : Node → Prop}
    (step : ∀ n, (∀ c ∈ n.children, motive c) → motive n) (ns : List Node) :
    ∀ n ∈ ns, motive n := by
  cases ns with
  | nil => exact List.forall_mem_nil motive
  | cons n ns =>
    exact List.forall_mem_cons.mpr ⟨childInduction step n, childInductionAll step ns⟩

end

theorem preorder_eq_cons (n : Node) : n.preorder = n :: preorderAll n.children := by
  cases n <;> simp [preorder, preorderAll, children]

theorem preorderAll_append (before after : List Node) :
    preorderAll (before ++ after) = preorderAll before ++ preorderAll after := by
  induction before with
  | nil => simp [preorderAll]
  | cons n before ih => simp [preorderAll, ih]

theorem mem_preorderAll {m : Node} {ns : List Node} :
    m ∈ preorderAll ns ↔ ∃ n ∈ ns, m ∈ n.preorder := by
  induction ns with
  | nil => simp [preorderAll]
  | cons n ns ih => simp [preorderAll, ih]

theorem self_mem_preorder (n : Node) : n ∈ n.preorder := by
  rw [preorder_eq_cons]
  exact List.mem_cons_self

theorem mem_preorder {m n : Node} : m ∈ n.preorder ↔ m = n ∨ ∃ c ∈ n.children, m ∈ c.preorder := by
  rw [preorder_eq_cons, List.mem_cons, mem_preorderAll]

theorem mem_preorder_of_mem_children {c m n : Node} (hc : c ∈ n.children) (hm : m ∈ c.preorder) :
    m ∈ n.preorder := by
  exact mem_preorder.mpr (.inr ⟨c, hc, hm⟩)

theorem preorder_subset {m n : Node} (h : m ∈ n.preorder) : m.preorder ⊆ n.preorder := by
  induction n using childInduction with
  | step n ih =>
    rcases mem_preorder.mp h with rfl | ⟨c, hc, hm⟩
    · exact List.Subset.refl _
    · intro x hx
      exact mem_preorder_of_mem_children hc (ih c hc hm hx)

theorem find?_eq (n : Node) (id : NodeId) :
    n.find? id =
      if n.id = id then some n else findAt? id n.children (candidate n.children id) := by
  cases n with
  | sequence own ns | fallback own ns => rw [find?, Node.id, children]
  | decorator own transform n => rw [find?, Node.id, children]
  | leaf own atomic => rw [find?, Node.id, children, findAt?]

theorem lastAtMost_eq {children : Array Node} {id : NodeId} {place : Nat}
    (h : ∀ i (hi : i < children.size), children[i].id ≤ id ↔ i ≤ place) (base size : Nat)
    (hbase : base ≤ place) (hplace : place < base + size) (hsize : base + size ≤ children.size) :
    lastAtMost children id base size = place := by
  -- The place never leaves the part that is still looked at.
  fun_induction lastAtMost children id base size with
  | case1 base size hone => omega
  | case2 base size hmany half upper ih =>
    have hupper : upper = true ↔ base + half ≤ place := by
      have hhalf : base + half < children.size := by omega
      simp [upper, hhalf, h]
    by_cases hplaces : base + half ≤ place
    · rw [dif_pos (hupper.mpr hplaces)] at ih
      rw [if_pos (hupper.mpr hplaces)]
      apply ih <;> omega
    · rw [dif_neg (mt hupper.mp hplaces)] at ih
      rw [if_neg (mt hupper.mp hplaces)]
      apply ih <;> omega

theorem candidate_append {before after : List Node} {n : Node} {id : NodeId}
    (hbefore : ∀ c ∈ before, c.id ≤ id) (hn : n.id ≤ id) (hafter : ∀ c ∈ after, id < c.id) :
    candidate (before ++ n :: after) id = before.length := by
  unfold candidate
  apply lastAtMost_eq
  · intro i hi
    rw [List.size_toArray] at hi
    rw [List.getElem_toArray]
    rcases Nat.lt_trichotomy i before.length with hlt | rfl | hgt
    · rw [List.getElem_append_left hlt]
      exact iff_of_true (hbefore _ (List.getElem_mem hlt)) (Nat.le_of_lt hlt)
    · simp [hn]
    · rw [List.getElem_append_right (Nat.le_of_lt hgt), List.getElem_cons, dif_neg (by omega)]
      exact iff_of_false (UInt32.not_le.mpr (hafter _ (List.getElem_mem _))) (Nat.not_le_of_lt hgt)
  · omega
  · simp
  · simp

theorem findAt?_append (id : NodeId) (before after : List Node) (n : Node) :
    findAt? id (before ++ n :: after) before.length = if n.id ≤ id then n.find? id else none := by
  induction before with
  | nil => simp [findAt?]
  | cons c before ih => simpa [findAt?] using ih

def Ascending (ns : List Node) : Prop :=
  ns.Pairwise fun m m' => m.id < m'.id

theorem id_le_of_mem_preorder {n m : Node} (h : Ascending n.preorder) (hm : m ∈ n.preorder) :
    n.id ≤ m.id := by
  unfold Ascending at h
  rw [preorder_eq_cons] at h hm
  rcases List.mem_cons.mp hm with rfl | hm
  · exact UInt32.le_refl _
  · exact UInt32.le_of_lt (List.rel_of_pairwise_cons h hm)

theorem findAt?_candidate {ns : List Node} {n m : Node} (h : Ascending (preorderAll ns))
    (hn : n ∈ ns) (hm : m ∈ n.preorder) :
    findAt? m.id ns (candidate ns m.id) = n.find? m.id := by
  obtain ⟨before, after, rfl⟩ := List.append_of_mem hn
  unfold Ascending at h
  rw [preorderAll_append, preorderAll, List.pairwise_append, List.pairwise_append] at h
  obtain ⟨-, ⟨hself, -, hlast⟩, hfirst⟩ := h
  have hle := id_le_of_mem_preorder hself hm
  rw [candidate_append, findAt?_append, if_pos hle]
  · intro c hc
    apply UInt32.le_of_lt
    apply hfirst c (mem_preorderAll.mpr ⟨c, hc, self_mem_preorder c⟩)
    exact List.mem_append_left _ hm
  · exact hle
  · intro c hc
    apply hlast m hm
    exact mem_preorderAll.mpr ⟨c, hc, self_mem_preorder c⟩

theorem Ascending.of_mem {ns : List Node} {n : Node} (h : Ascending (preorderAll ns))
    (hn : n ∈ ns) : Ascending n.preorder := by
  obtain ⟨before, after, rfl⟩ := List.append_of_mem hn
  apply List.Pairwise.sublist _ h
  rw [preorderAll_append, preorderAll]
  exact (List.sublist_append_left ..).trans (List.sublist_append_right ..)

theorem Ascending.preorderAll_children {n : Node} (h : Ascending n.preorder) :
    Ascending (preorderAll n.children) := by
  unfold Ascending at h
  rw [preorder_eq_cons] at h
  exact List.Pairwise.of_cons h

theorem Ascending.of_mem_preorder {m n : Node} (h : Ascending n.preorder) (hm : m ∈ n.preorder) :
    Ascending m.preorder := by
  induction n using childInduction with
  | step n ih =>
    rcases mem_preorder.mp hm with rfl | ⟨c, hc, hm⟩
    · exact h
    · exact ih c hc (h.preorderAll_children.of_mem hc) hm

theorem find?_of_mem {n m : Node} (h : Ascending n.preorder) (hm : m ∈ n.preorder) :
    n.find? m.id = some m := by
  induction n using childInduction with
  | step n ih =>
    unfold Ascending at h
    rw [preorder_eq_cons] at h hm
    rw [find?_eq]
    rcases List.mem_cons.mp hm with rfl | hm
    · rw [if_pos rfl]
    · obtain ⟨hid, hchildren⟩ := List.pairwise_cons.mp h
      obtain ⟨c, hc, hmc⟩ := mem_preorderAll.mp hm
      rw [if_neg (UInt32.ne_of_lt (hid m hm)), findAt?_candidate hchildren hc hmc]
      exact ih c hc (Ascending.of_mem hchildren hc) hmc

theorem eq_of_id_eq {n m m' : Node} (h : Ascending n.preorder) (hm : m ∈ n.preorder)
    (hm' : m' ∈ n.preorder) (hid : m.id = m'.id) : m = m' := by
  have hfind := find?_of_mem h hm
  rw [hid, find?_of_mem h hm'] at hfind
  exact (Option.some.inj hfind).symm

end Node

end BattleTree
