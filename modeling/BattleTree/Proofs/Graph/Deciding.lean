import BattleTree.Proofs.Graph.Binding
import BattleTree.Proofs.Graph.Engines

/-!
This module contains that a decision names the node that made it: the node of a compiled tree that
has the number in a decision comes to the same decision when it is ticked by itself.
-/

namespace BattleTree

namespace Decision

def AllBefore (status : Status) (ds : List Decision) (i : Nat) : Prop :=
  ∀ j d, j < i → ds[j]? = some d → d.status = status

theorem allBefore_of_forall {status : Status} {ds : List Decision}
    (h : ∀ d ∈ ds, d.status = status) (i : Nat) : AllBefore status ds i := by
  intro j d _ hd
  exact h d (List.mem_of_getElem? hd)

theorem find?_status_cases (status : Status) (ds : List Decision) :
    (ds.find? (·.status ≠ status) = none ∧ ∀ d ∈ ds, d.status = status) ∨
      ∃ i d, ds.find? (·.status ≠ status) = some d ∧ ds[i]? = some d ∧ AllBefore status ds i ∧
        d.status ≠ status := by
  cases hfind : ds.find? (·.status ≠ status) with
  | none =>
    left
    rw [List.find?_eq_none] at hfind
    exact ⟨rfl, by simpa using hfind⟩
  | some d =>
    right
    obtain ⟨hd, i, hi, hget, hbefore⟩ := List.find?_eq_some_iff_getElem.mp hfind
    refine ⟨i, d, rfl, ?_, ?_, by simpa using hd⟩
    · rw [List.getElem?_eq_getElem hi, hget]
    · intro j x hj hx
      obtain ⟨hlt, rfl⟩ := List.getElem?_eq_some_iff.mp hx
      simpa using hbefore j hj

end Decision

namespace Node

theorem sequenceOf_cases (last : Decision) (ds : List Decision) :
    (ds = [] ∧ sequenceOf last ds = last) ∨
      ∃ i d, sequenceOf last ds = d ∧ ds[i]? = some d ∧ Decision.AllBefore .success ds i ∧
        (d.status ≠ .success ∨ ds.length = i + 1) := by
  unfold sequenceOf
  rcases Decision.find?_status_cases .success ds with ⟨hfind, hall⟩ | ⟨i, d, hfind, hi, hbefore, hd⟩
  · rw [hfind]
    rcases List.eq_nil_or_concat ds with rfl | ⟨init, d, rfl⟩
    · exact .inl ⟨rfl, rfl⟩
    · right
      refine ⟨init.length, d, ?_, ?_, Decision.allBefore_of_forall hall _, .inr ?_⟩
      all_goals simp
  · rw [hfind]
    exact .inr ⟨i, d, rfl, hi, hbefore, .inl hd⟩

theorem fallbackOf_cases (exhausted : Decision) (ds : List Decision) :
    ((∀ d ∈ ds, d.status = .failure) ∧ fallbackOf exhausted ds = exhausted) ∨
      ∃ i d, fallbackOf exhausted ds = d ∧ ds[i]? = some d ∧ Decision.AllBefore .failure ds i ∧
        d.status ≠ .failure := by
  unfold fallbackOf
  rcases Decision.find?_status_cases .failure ds with ⟨hfind, hall⟩ | ⟨i, d, hfind, hdecides⟩
  · rw [hfind]
    exact .inl ⟨hall, rfl⟩
  · rw [hfind]
    exact .inr ⟨i, d, rfl, hdecides⟩

def DecidesItself (s : Scene) : Node → Prop
  | leaf .. | decorator .. => True
  | sequence _ ns => ns = []
  | fallback _ ns => ∀ n ∈ ns, (n.decide s).status = .failure

theorem exists_decider (s : Scene) (n : Node) :
    ∃ m ∈ n.preorder, m.DecidesItself s ∧ m.id = (n.decide s).node ∧ m.decide s = n.decide s := by
  induction n using childInduction with
  | step n ih =>
    -- A composite has the decision of a child, unless no child decides.
    have hchild {d : Decision} (hd : d ∈ decisions s n.children) :
        ∃ m ∈ n.preorder, m.DecidesItself s ∧ m.id = d.node ∧ m.decide s = d := by
      obtain ⟨c, hc, rfl⟩ := List.mem_map.mp hd
      obtain ⟨m, hm, hdecider⟩ := ih c hc
      exact ⟨m, mem_preorder_of_mem_children hc hm, hdecider⟩
    cases n with
    | leaf id atomic => exact ⟨_, self_mem_preorder _, trivial, rfl, rfl⟩
    | decorator id transform n => exact ⟨_, self_mem_preorder _, trivial, rfl, rfl⟩
    | sequence id ns =>
      rw [decide_sequence]
      rcases sequenceOf_cases (.idle .success id) (decisions s ns) with
        ⟨hnil, -⟩ | ⟨i, d, hd, hi, -⟩
      · obtain rfl := List.map_eq_nil_iff.mp hnil
        exact ⟨_, self_mem_preorder _, rfl, rfl, rfl⟩
      · rw [hd]
        exact hchild (List.mem_of_getElem? hi)
    | fallback id ns =>
      have hdecide := decide_fallback s id ns
      rcases fallbackOf_cases (.idle .failure id) (decisions s ns) with
        ⟨hall, h⟩ | ⟨i, d, hd, hi, -⟩
      · rw [h] at hdecide
        rw [hdecide]
        exact ⟨_, self_mem_preorder _, List.forall_mem_map.mp hall, rfl, hdecide⟩
      · rw [hdecide, hd]
        exact hchild (List.mem_of_getElem? hi)

end Node

namespace Graph

variable {σ : Type} {t : SyntaxTree σ} {g : Graph}

theorem ascending_of_compile (h : t.compile = .ok g) (hsize : t.nodeCount < UInt32.size) :
    Node.Ascending g.root.preorder := by
  obtain ⟨-, hids, -⟩ := SyntaxTree.compile_eq_ok_iff.mp h
  have hpairwise : (g.root.preorder.map Node.id).Pairwise (· < ·) := by
    rw [hids]
    exact NodeId.pairwise_block_zero (Nat.le_of_lt hsize)
  exact List.pairwise_map.mp hpairwise

theorem tick_node_of_tick (h : t.compile = .ok g) (hsize : t.nodeCount < UInt32.size) (v : View)
    (c : Context) (hcheck : c.check v = .ok ()) :
    ∃ d n, g.tick v c = .ok d ∧ g.node? d.node = some n ∧ n.tick v c = .ok d ∧
      (∀ id ns, n = .sequence id ns → ns = []) ∧
      ∀ id ns, n = .fallback id ns → ∀ m ∈ ns, ∃ e, m.tick v c = .ok e ∧ e.status = .failure := by
  obtain ⟨s, hs⟩ := Scene.exists_ofView hcheck
  obtain ⟨n, hn, hself, hid, hdecide⟩ := Node.exists_decider s g.root
  refine ⟨g.root.decide s, n, tick_of_scene hs, ?_, ?_, ?_, ?_⟩
  · rw [← hid]
    exact Node.find?_of_mem (ascending_of_compile h hsize) hn
  · rw [← hdecide]
    exact Node.tick_of_scene hs n
  · rintro id ns rfl
    exact hself
  · rintro id ns rfl m hm
    exact ⟨m.decide s, Node.tick_of_scene hs m, hself m hm⟩

theorem tick_node_of_tick_engage :
    ∃ g, SyntaxTree.engage.compile = .ok g ∧ SyntaxTree.engage.nodeCount < UInt32.size ∧
      Context.duel.check .duel = .ok () ∧
      ∃ d n, g.tick .duel .duel = .ok d ∧ g.node? d.node = some n ∧ n.tick .duel .duel = .ok d ∧
        (∀ id ns, n = .sequence id ns → ns = []) ∧
        ∀ id ns, n = .fallback id ns → ∀ m ∈ ns,
          ∃ e, m.tick .duel .duel = .ok e ∧ e.status = .failure := by
  have hsize : SyntaxTree.engage.nodeCount < UInt32.size := by decide
  refine ⟨_, rfl, hsize, Context.check_duel, ?_⟩
  exact tick_node_of_tick rfl hsize .duel .duel Context.check_duel

end Graph

end BattleTree
