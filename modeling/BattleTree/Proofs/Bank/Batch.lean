import BattleTree.Bank.Batch
import BattleTree.Proofs.Graph.Engines

/-!
This module contains the meaning of batches: a batch is refused because of its first member that the
bank has no tree for, or else because of its first member whose context refuses its view, and
otherwise every member gets the decision of the tree that it selects.
-/

namespace BattleTree

namespace Bank

variable {b : Bank}

def Decides (b : Bank) (m : BatchMember) (d : Decision) : Prop :=
  ∃ g, b.get? m.index = some g ∧ g.tick m.view m.context = .ok d

inductive BatchAnswer (b : Bank) (members : List BatchMember) :
    Except BatchError (List Decision) → Prop where
  | foreign {before after : List BatchMember} {m : BatchMember} :
      members = before ++ m :: after → (∀ x ∈ before, x.index < b.size) → b.size ≤ m.index →
      BatchAnswer b members (.error (.rejected (.treeIndex before.length m.index b.size)))
  | refused {before after : List BatchMember} {m : BatchMember} :
      (∀ x ∈ members, x.index < b.size) → members = before ++ m :: after →
      (∀ x ∈ before, x.context.check x.view = .ok ()) → m.context.check m.view ≠ .ok () →
      BatchAnswer b members (.error (.rejected (.viewMismatch m.view.friendRows.size
        m.view.foeRows.size m.context.friendRows.size m.context.foeRows.size)))
  | decided {decisions : List Decision} :
      (∀ x ∈ members, x.index < b.size) → (∀ x ∈ members, x.context.check x.view = .ok ()) →
      List.Forall₂ b.Decides members decisions → BatchAnswer b members (.ok decisions)

theorem get?_eq_toList (b : Bank) (index : Nat) : b.get? index = b.graphs.toList[index]? :=
  Array.getElem?_toList.symm

theorem get?_push_of_lt {index : Nat} (h : index < b.size) (name : String) (graph : Graph) :
    (b.push name graph).1.get? index = b.get? index := by
  exact Array.getElem?_push_lt h |>.trans (Array.getElem?_eq_getElem h).symm

theorem selectFrom_of_scene {m : BatchMember} {s : Scene}
    (hs : Scene.ofView m.view m.context = .ok s) (first : Nat) (selected : Decision)
    (graphs : List Graph) :
    selectFrom m first selected graphs =
      .ok (if first ≤ m.index then
        (graphs[m.index - first]?.map fun g => g.root.decide s).getD selected
      else selected) := by
  induction graphs generalizing first selected with
  | nil => simp [selectFrom]
  | cons g graphs ih =>
    rw [selectFrom, Graph.tick_of_scene hs, ok_bind, ih]
    -- The tree is in front of the selected one, or is it, or comes after it.
    rcases Nat.lt_trichotomy first m.index with hlt | heq | hgt
    · obtain ⟨k, hk⟩ : ∃ k, m.index - first = k + 1 := ⟨m.index - first - 1, by omega⟩
      rw [if_pos (show first + 1 ≤ m.index by omega), if_pos (Nat.le_of_lt hlt),
        if_neg (Nat.ne_of_lt hlt), hk, List.getElem?_cons_succ,
        show m.index - (first + 1) = k by omega]
    · rw [if_neg (show ¬first + 1 ≤ m.index by omega), if_pos heq, if_pos (Nat.le_of_eq heq), heq,
        Nat.sub_self]
      rfl
    · rw [if_neg (show ¬first + 1 ≤ m.index by omega), if_neg (show ¬first = m.index by omega),
        if_neg (show ¬first ≤ m.index by omega)]

theorem decideFor_of_tick {m : BatchMember} {d : Decision} (h : b.Decides m d) :
    b.decideFor m = .ok d := by
  obtain ⟨g, hget, htick⟩ := h
  obtain ⟨s, hs, rfl⟩ := Graph.exists_scene_of_tick htick
  unfold decideFor
  rw [selectFrom_of_scene hs, if_pos (Nat.zero_le _), Nat.sub_zero, ← get?_eq_toList, hget]
  rfl

theorem Decides.index_lt {m : BatchMember} {d : Decision} (h : b.Decides m d) :
    m.index < b.size := by
  obtain ⟨g, hget, -⟩ := h
  exact (Array.getElem?_eq_some_iff.mp hget).1

theorem Decides.check_eq_ok {m : BatchMember} {d : Decision} (h : b.Decides m d) :
    m.context.check m.view = .ok () := by
  obtain ⟨g, -, htick⟩ := h
  obtain ⟨s, hs, -⟩ := Graph.exists_scene_of_tick htick
  exact Scene.check_of_ofView hs

theorem exists_decides {m : BatchMember} (hindex : m.index < b.size)
    (hcheck : m.context.check m.view = .ok ()) : ∃ d, b.Decides m d := by
  obtain ⟨s, hs⟩ := Scene.exists_ofView hcheck
  exact ⟨b.graphs[m.index].root.decide s, b.graphs[m.index], Array.getElem?_eq_getElem hindex,
    Graph.tick_of_scene hs⟩

theorem foreignIndex?_eq_none (first : Nat) {members : List BatchMember}
    (h : ∀ m ∈ members, m.index < b.size) : b.foreignIndex? first members = none := by
  induction members generalizing first with
  | nil => rfl
  | cons m members ih =>
    rw [List.forall_mem_cons] at h
    rw [foreignIndex?, if_pos h.1]
    exact ih (first + 1) h.2

theorem foreignIndex?_append_cons (first : Nat) {before after : List BatchMember} {m : BatchMember}
    (hbefore : ∀ x ∈ before, x.index < b.size) (hm : b.size ≤ m.index) :
    b.foreignIndex? first (before ++ m :: after) =
      some (.treeIndex (first + before.length) m.index b.size) := by
  induction before generalizing first with
  | nil =>
    rw [List.nil_append, foreignIndex?, if_neg (by omega)]
    rfl
  | cons x before ih =>
    rw [List.forall_mem_cons] at hbefore
    rw [List.cons_append, foreignIndex?, if_pos hbefore.1, ih (first + 1) hbefore.2,
      List.length_cons]
    congr 2
    omega

theorem accept_eq_forM {members : List BatchMember} (h : ∀ m ∈ members, m.index < b.size) :
    b.accept members = members.forM fun m => m.context.check m.view := by
  unfold accept
  rw [foreignIndex?_eq_none 0 h]

theorem tickBatch_of_batchAnswer {members : List BatchMember}
    {r : Except BatchError (List Decision)} (h : b.BatchAnswer members r) :
    b.tickBatch members = r := by
  unfold tickBatch
  cases h with
  | @foreign before after m hmembers hbefore hm =>
    have haccept : b.accept members = .error (.treeIndex before.length m.index b.size) := by
      unfold accept
      rw [hmembers, foreignIndex?_append_cons 0 hbefore hm, Nat.zero_add]
      rfl
    rw [haccept]
  | @refused before after m hindices hmembers hbefore hm =>
    rw [accept_eq_forM hindices, hmembers,
      forM_append_cons_eq_error hbefore (Context.check_eq_error hm)]
  | @decided decisions hindices hchecks hdecisions =>
    rw [accept_eq_forM hindices, forM_eq_ok hchecks]
    have hmapM : members.mapM b.decideFor = .ok decisions := by
      apply mapM_eq_ok_iff.mpr
      exact hdecisions.imp fun _ _ => decideFor_of_tick
    rw [hmapM]
    rfl

theorem exists_batchAnswer (b : Bank) (members : List BatchMember) :
    ∃ r, b.BatchAnswer members r := by
  -- The indices go first, as they do when the batch is checked.
  by_cases hindices : ∀ m ∈ members, m.index < b.size
  · by_cases hchecks : ∀ m ∈ members, m.context.check m.view = .ok ()
    · have hdecides (m : BatchMember) (hm : m ∈ members) : ∃ d, b.Decides m d :=
        exists_decides (hindices m hm) (hchecks m hm)
      obtain ⟨decisions, hdecisions⟩ := exists_forall₂ hdecides
      exact ⟨_, .decided hindices hchecks hdecisions⟩
    · obtain ⟨before, m, after, hmembers, hbefore, hm⟩ := exists_first_of_not_forall hchecks
      exact ⟨_, .refused hindices hmembers hbefore hm⟩
  · obtain ⟨before, m, after, hmembers, hbefore, hm⟩ := exists_first_of_not_forall hindices
    exact ⟨_, .foreign hmembers hbefore (Nat.le_of_not_lt hm)⟩

theorem tickBatch_eq_iff {members : List BatchMember} {r : Except BatchError (List Decision)} :
    b.tickBatch members = r ↔ b.BatchAnswer members r := by
  constructor
  · rintro rfl
    obtain ⟨r, hr⟩ := exists_batchAnswer b members
    rw [tickBatch_of_batchAnswer hr]
    exact hr
  · exact tickBatch_of_batchAnswer

theorem tickBatch_eq_ok_iff {members : List BatchMember} {decisions : List Decision} :
    b.tickBatch members = .ok decisions ↔ List.Forall₂ b.Decides members decisions := by
  rw [tickBatch_eq_iff]
  constructor
  · rintro (_ | _ | ⟨-, -, hdecisions⟩)
    exact hdecisions
  · intro h
    exact .decided (forall_mem_of_forall₂ h fun _ _ => Decides.index_lt)
      (forall_mem_of_forall₂ h fun _ _ => Decides.check_eq_ok) h

def pushAll (b : Bank) (trees : List (String × Graph)) : Bank :=
  trees.foldl (fun b (name, graph) => (b.push name graph).1) b

theorem Decides.pushAll {m : BatchMember} {d : Decision} (h : b.Decides m d)
    (trees : List (String × Graph)) : (b.pushAll trees).Decides m d := by
  induction trees generalizing b with
  | nil => exact h
  | cons tree trees ih =>
    apply ih
    have hindex := h.index_lt
    obtain ⟨g, hget, htick⟩ := h
    exact ⟨g, (get?_push_of_lt hindex tree.1 tree.2).trans hget, htick⟩

theorem tickBatch_spec (b : Bank) (members : List BatchMember) :
    (∀ r, b.tickBatch members = r ↔ b.BatchAnswer members r) ∧
      ∀ ds, b.tickBatch members = .ok ds →
        (∀ places : List Nat,
          b.tickBatch (places.filterMap (members[·]?)) = .ok (places.filterMap (ds[·]?))) ∧
        ∀ trees : List (String × Graph), (b.pushAll trees).tickBatch members = .ok ds := by
  constructor
  · intro r
    exact tickBatch_eq_iff
  · intro ds hds
    rw [tickBatch_eq_ok_iff] at hds
    constructor
    · intro places
      apply tickBatch_eq_ok_iff.mpr
      refine List.rel_filterMap (R := Eq) ?_ (List.forall₂_refl places)
      rintro i _ rfl
      exact forall₂_getElem? hds i
    · intro trees
      apply tickBatch_eq_ok_iff.mpr
      exact hds.imp fun _ _ h => h.pushAll trees

theorem tickBatch_spec_duel :
    let idle : Graph := ⟨.leaf 0 .stand, 1⟩
    let engage : Graph := ⟨.leaf 0 (.attack (.qualified .closest) none), 1⟩
    let b := ((Bank.empty.push "idle" idle).1.push "engage" engage).1
    let member (index : Nat) : BatchMember := { index, view := .duel, context := .duel }
    let stands : Decision := { status := .success, action := .stand, node := 0 }
    let attacks : Decision := { status := .success, action := ⟨5⟩, node := 0 }
    b.tickBatch [member 1, member 0] = .ok [attacks, stands] ∧
      b.tickBatch [member 0, member 1] = .ok [stands, attacks] := by
  intro idle engage b member stands attacks
  have h : b.tickBatch [member 1, member 0] = .ok [attacks, stands] := by decide +kernel
  exact ⟨h, ((tickBatch_spec b [member 1, member 0]).2 _ h).1 [1, 0]⟩

end Bank

end BattleTree
