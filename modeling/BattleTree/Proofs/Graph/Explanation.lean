import BattleTree.Proofs.Graph.Deciding
import BattleTree.Proofs.Graph.Tracing

/-!
This module contains how the events of a traced tick explain its decision: which nodes report, in
which order they do, and that the deciding one reports last.
-/

namespace BattleTree

namespace Node

theorem id_lt_of_mem_children {m n : Node} (h : Ascending n.preorder)
    (hm : m ∈ preorderAll n.children) : n.id < m.id := by
  unfold Ascending at h
  rw [preorder_eq_cons] at h
  exact List.rel_of_pairwise_cons h hm

/-- A node is done before its ancestors, and before all that comes after its subtree. -/
def DoneBefore (m m' : Node) : Prop :=
  m ∈ preorderAll m'.children ∨ ∀ x ∈ m.preorder, x.id < m'.id

theorem DoneBefore.id_lt {m m' : Node} (h : m.DoneBefore m') (hm' : m'.children = []) :
    m.id < m'.id := by
  rcases h with h | h
  · simp [hm', preorderAll] at h
  · exact h m (self_mem_preorder m)

theorem DoneBefore.not_mem {m m' : Node} (h : m.DoneBefore m') (hm : Ascending m.preorder)
    (hm' : Ascending m'.preorder) : m' ∉ m.preorder := by
  intro hmem
  rcases h with h | h
  · have hle := id_le_of_mem_preorder hm hmem
    exact UInt32.not_lt.mpr hle (id_lt_of_mem_children hm' h)
  · exact UInt32.lt_irrefl _ (h m' hmem)

theorem mem_preorderAll_of_mem_evaluatedWhile {s : Scene} {passing : Option Status} {m : Node}
    {ns : List Node} (h : m ∈ evaluatedWhile s passing ns) : m ∈ preorderAll ns := by
  obtain ⟨before, c, after, rfl, -, hm⟩ := mem_evaluatedWhile.mp h
  exact mem_preorderAll.mpr ⟨c, by simp, mem_preorder_of_mem_evaluated hm⟩

theorem pairwise_evaluatedWhile (s : Scene) (passing : Option Status) {ns : List Node}
    (h : Ascending (preorderAll ns)) (hns : ∀ n ∈ ns, (n.evaluated s).Pairwise DoneBefore) :
    (evaluatedWhile s passing ns).Pairwise DoneBefore := by
  induction ns with
  | nil => exact .nil
  | cons n ns ih =>
    unfold Ascending at h
    rw [preorderAll, List.pairwise_append] at h
    obtain ⟨-, hascending, hlt⟩ := h
    rw [List.forall_mem_cons] at hns
    rw [evaluatedWhile, List.pairwise_append]
    refine ⟨hns.1, ?_, ?_⟩
    · split
      · exact ih hascending hns.2
      · exact .nil
    · intro m hm m' hm'
      right
      intro x hx
      apply hlt x (preorder_subset (mem_preorder_of_mem_evaluated hm) hx)
      split at hm'
      · exact mem_preorderAll_of_mem_evaluatedWhile hm'
      · simp at hm'

theorem pairwise_evaluated (s : Scene) {n : Node} (h : Ascending n.preorder) :
    (n.evaluated s).Pairwise DoneBefore := by
  induction n using childInduction with
  | step n ih =>
    have hchildren := h.preorderAll_children
    rw [evaluated_eq, List.pairwise_append]
    refine ⟨?_, List.pairwise_singleton .., ?_⟩
    · apply pairwise_evaluatedWhile s _ hchildren
      intro c hc
      exact ih c hc (hchildren.of_mem hc)
    · intro m hm m' hm'
      obtain rfl := List.mem_singleton.mp hm'
      exact .inl (mem_preorderAll_of_mem_evaluatedWhile hm)

inductive Reports (v : View) (c : Context) : Node → TraceEvent → Prop where
  | leaf {id : NodeId} {atomic : Atomic} {d : Decision} :
      (leaf id atomic).tick v c = .ok d →
      Reports v c (leaf id atomic) ⟨c.tick, .leaf, id, d.action.code⟩
  | decorator {id : NodeId} {transform : Transform} {n : Node} {d : Decision} :
      (decorator id transform n).tick v c = .ok d →
      Reports v c (decorator id transform n) ⟨c.tick, .decorator, id, d.status.code⟩

section

variable {v : View} {c : Context} {s : Scene} {n m : Node} {e : TraceEvent}

theorem reports_of_report? (hs : Scene.ofView v c = .ok s) (h : n.report? s = some e) :
    n.Reports v c e := by
  obtain rfl := (Scene.depicts_of_ofView hs).context_eq
  cases n with
  | leaf id atomic =>
    obtain rfl := Option.some.inj h
    exact .leaf (tick_of_scene hs _)
  | decorator id transform n =>
    obtain rfl := Option.some.inj h
    exact .decorator (tick_of_scene hs _)
  | sequence | fallback => cases h

theorem node_of_report? (h : n.report? s = some e) : e.node = n.id := by
  cases n with
  | leaf | decorator =>
    obtain rfl := Option.some.inj h
    rfl
  | sequence | fallback => cases h

theorem children_of_report? (h : n.report? s = some e) (hkind : e.kind = .leaf) :
    n.children = [] := by
  cases n with
  | leaf => rfl
  | decorator =>
    obtain rfl := Option.some.inj h
    cases hkind
  | sequence | fallback => cases h

theorem report?_isSome (s : Scene) (h : n.passing? = none) : ∃ e, n.report? s = some e := by
  cases n with
  | leaf | decorator => exact ⟨_, rfl⟩
  | sequence | fallback => cases h

theorem report?_eq_none {status : Status} (h : status ∈ n.passing?) : n.report? s = none := by
  cases n with
  | leaf | decorator => cases h
  | sequence | fallback => rfl

theorem mem_events : e ∈ n.events s ↔ ∃ m ∈ n.evaluated s, m.report? s = some e := by
  unfold events
  exact List.mem_filterMap

theorem exists_event_iff (h : Ascending n.preorder) (hm : m ∈ n.preorder)
    (hreports : m.passing? = none) : (∃ e ∈ n.events s, e.node = m.id) ↔ m ∈ n.evaluated s := by
  constructor
  · rintro ⟨e, he, hnode⟩
    obtain ⟨x, hx, hreport⟩ := mem_events.mp he
    have hid : x.id = m.id := (node_of_report? hreport).symm.trans hnode
    rw [← eq_of_id_eq h (mem_preorder_of_mem_evaluated hx) hm hid]
    exact hx
  · intro hevaluated
    obtain ⟨e, he⟩ := report?_isSome s hreports
    exact ⟨e, mem_events.mpr ⟨m, hevaluated, he⟩, node_of_report? he⟩

theorem pairwise_events {R : TraceEvent → TraceEvent → Prop} (h : Ascending n.preorder)
    (hR : ∀ m ∈ n.preorder, ∀ m' ∈ n.preorder, m.DoneBefore m' → ∀ e e', m.report? s = some e →
      m'.report? s = some e' → R e e') : (n.events s).Pairwise R := by
  unfold events
  rw [List.pairwise_filterMap]
  apply (pairwise_evaluated s h).imp_of_mem
  intro m m' hm hm' hbefore e he e' he'
  exact hR m (mem_preorder_of_mem_evaluated hm) m' (mem_preorder_of_mem_evaluated hm') hbefore e e'
    he he'

end

/-- No ancestor of a node below `n` stops at a child in front of the branch that holds the node. -/
def Arrives (v : View) (c : Context) (n m : Node) : Prop :=
  ∀ a ∈ n.preorder, ∀ before branch after, a.children = before ++ branch :: after →
    m ∈ branch.preorder → ∀ status ∈ a.passing?, ∀ b ∈ before, b.TicksTo v c status

theorem split_unique {before before' after after' : List Node} {c c' m : Node}
    (h : Ascending (preorderAll (before ++ c :: after)))
    (heq : before ++ c :: after = before' ++ c' :: after') (hm : m ∈ c.preorder)
    (hm' : m ∈ c'.preorder) : before = before' ∧ c = c' ∧ after = after' := by
  -- Two branches that hold the same node cannot be at different places.
  induction before generalizing before' with
  | nil =>
    cases before' with
    | nil =>
      obtain ⟨rfl, rfl⟩ := List.cons.inj heq
      exact ⟨rfl, rfl, rfl⟩
    | cons b before' =>
      obtain ⟨rfl, rfl⟩ := List.cons.inj heq
      unfold Ascending at h
      rw [List.nil_append, preorderAll, List.pairwise_append] at h
      have hlt := h.2.2 m hm m (mem_preorderAll.mpr ⟨c', by simp, hm'⟩)
      exact absurd hlt (UInt32.lt_irrefl _)
  | cons b before ih =>
    unfold Ascending at h
    rw [List.cons_append, preorderAll, List.pairwise_append] at h
    cases before' with
    | nil =>
      obtain ⟨rfl, rfl⟩ := List.cons.inj heq
      have hlt := h.2.2 m hm' m (mem_preorderAll.mpr ⟨c, by simp, hm⟩)
      exact absurd hlt (UInt32.lt_irrefl _)
    | cons b' before' =>
      obtain ⟨rfl, htail⟩ := List.cons.inj heq
      obtain ⟨rfl, rfl, rfl⟩ := @ih before' h.2.1 htail
      exact ⟨rfl, rfl, rfl⟩

theorem passes_iff (s : Scene) {n c : Node} {before after : List Node}
    (h : n.children = before ++ c :: after) :
    (∀ b ∈ before, n.passing? = some (b.decide s).status) ↔
      ∀ status ∈ n.passing?, ∀ b ∈ before, (b.decide s).status = status := by
  cases n with
  | sequence | fallback =>
    simp [passing?, eq_comm]
  | decorator id transform n =>
    rw [children, List.singleton_eq_append_iff] at h
    simp_all [passing?]
  | leaf => simp [children] at h

theorem mem_preorderAll_children {n a m : Node} (ha : a ∈ n.preorder)
    (hm : m ∈ preorderAll a.children) : m ∈ preorderAll n.children := by
  rcases mem_preorder.mp ha with rfl | ⟨c, hc, ha⟩
  · exact hm
  · obtain ⟨c', hc', hm⟩ := mem_preorderAll.mp hm
    have hma := mem_preorder_of_mem_children hc' hm
    exact mem_preorderAll.mpr ⟨c, hc, preorder_subset ha hma⟩

section

variable {v : View} {c : Context} {s : Scene} {n m : Node}

theorem Arrives.of_children (h : n.Arrives v c m) {n' : Node} (hn' : n' ∈ n.children) :
    n'.Arrives v c m := by
  intro a ha
  exact h a (mem_preorder_of_mem_children hn' ha)

theorem mem_evaluated_of_arrives (hs : Scene.ofView v c = .ok s) (hm : m ∈ n.preorder)
    (h : n.Arrives v c m) : m ∈ n.evaluated s := by
  induction n using childInduction with
  | step n ih =>
    rw [mem_evaluated]
    rcases mem_preorder.mp hm with rfl | ⟨branch, hbranch, hm'⟩
    · exact .inl rfl
    · right
      have hevaluated := ih branch hbranch hm' (h.of_children hbranch)
      obtain ⟨before, after, hsplit⟩ := List.append_of_mem hbranch
      refine ⟨before, branch, after, hsplit, ?_, hevaluated⟩
      rw [passes_iff s hsplit]
      intro status hstatus b hb
      rw [← ticksTo_iff hs]
      exact h n (self_mem_preorder n) before branch after hsplit hm' status hstatus b hb

theorem arrives_of_mem_evaluated (hs : Scene.ofView v c = .ok s) (h : Ascending n.preorder)
    (hm : m ∈ n.evaluated s) : n.Arrives v c m := by
  induction n using childInduction with
  | step n ih =>
    intro a ha before branch after hsplit hbranch
    have hchildren := h.preorderAll_children
    have hma : m ∈ preorderAll a.children := by
      rw [hsplit]
      exact mem_preorderAll.mpr ⟨branch, by simp, hbranch⟩
    rcases mem_evaluated.mp hm with rfl | ⟨before', branch', after', hsplit', hpass, hm'⟩
    · -- The root is below no node.
      have hlt := id_lt_of_mem_children h (mem_preorderAll_children ha hma)
      exact absurd hlt (UInt32.lt_irrefl _)
    · have hbranch' := mem_preorder_of_mem_evaluated hm'
      rcases mem_preorder.mp ha with rfl | ⟨branch₁, hbranch₁, ha⟩
      · rw [hsplit] at hchildren hsplit'
        obtain ⟨rfl, rfl, rfl⟩ := split_unique hchildren hsplit' hbranch hbranch'
        intro status hstatus b hb
        rw [ticksTo_iff hs]
        exact (passes_iff s hsplit).mp hpass status hstatus b hb
      · have hchild : branch ∈ a.children := by simp [hsplit]
        have hm₁ := preorder_subset ha (mem_preorder_of_mem_children hchild hbranch)
        obtain ⟨before₁, after₁, hsplit₁⟩ := List.append_of_mem hbranch₁
        rw [hsplit₁] at hchildren hsplit'
        obtain ⟨rfl, rfl, rfl⟩ := split_unique hchildren hsplit' hm₁ hbranch'
        have hascending : Ascending branch₁.preorder := hchildren.of_mem (by simp)
        exact ih branch₁ hbranch₁ hascending hm' a ha before branch after hsplit hbranch

theorem exists_last_decider (s : Scene) (n : Node) :
    ∃ m ∈ n.preorder, m.id = (n.decide s).node ∧ ∃ before after,
      n.evaluated s = before ++ m :: after ∧ ∀ x ∈ after, x.report? s = none := by
  induction n using childInduction with
  | step n ih =>
    have hself (hid : n.id = (n.decide s).node) : ∃ m ∈ n.preorder, m.id = (n.decide s).node ∧
        ∃ before after, n.evaluated s = before ++ m :: after ∧ ∀ x ∈ after, x.report? s = none := by
      refine ⟨n, self_mem_preorder n, hid, _, [], evaluated_eq s n, ?_⟩
      exact List.forall_mem_nil _
    cases hpassing : n.passing? with
    | none =>
      apply hself
      cases n with
      | leaf | decorator => rfl
      | sequence | fallback => cases hpassing
    | some status =>
      rcases decide_composite s hpassing with
        hidle | ⟨before, c, after, hsplit, -, hevaluated, hdecide⟩
      · apply hself
        rw [hidle]
        rfl
      · have hc : c ∈ n.children := by simp [hsplit]
        obtain ⟨m, hm, hid, init, tail, hlast, htail⟩ := ih c hc
        refine ⟨m, mem_preorder_of_mem_children hc hm, hid.trans (by rw [hdecide]),
          before.flatMap (evaluated s) ++ init, tail ++ [n], ?_, ?_⟩
        · rw [hevaluated, hlast]
          simp
        · rw [List.forall_mem_append, List.forall_mem_singleton]
          exact ⟨htail, report?_eq_none hpassing⟩

end

end Node

namespace Graph

structure Explains (g : Graph) (v : View) (c : Context) (d : Decision)
    (events : List TraceEvent) : Prop where
  reports : ∀ e ∈ events, ∃ n, g.node? e.node = some n ∧ n.Reports v c e
  distinct : events.Pairwise fun e e' => e.node ≠ e'.node
  leaves : (events.filter (·.kind = .leaf)).Pairwise fun e e' => e.node < e'.node
  subtrees : events.Pairwise fun e e' =>
    ∀ n, g.node? e.node = some n → ∀ m ∈ n.preorder, e'.node ≠ m.id
  occurs_iff : ∀ n ∈ g.root.preorder, n.passing? = none →
    ((∃ e ∈ events, e.node = n.id) ↔ g.root.Arrives v c n)
  last : ∀ n, g.node? d.node = some n → n.passing? = none →
    ∃ before e, events = before ++ [e] ∧ e.node = d.node

theorem last_of_evaluated {s : Scene} {root m : Node} {before after : List Node}
    (h : root.evaluated s = before ++ m :: after) (hafter : ∀ x ∈ after, x.report? s = none)
    (hm : m.passing? = none) : ∃ init e, root.events s = init ++ [e] ∧ e.node = m.id := by
  obtain ⟨e, he⟩ := Node.report?_isSome s hm
  refine ⟨before.filterMap (Node.report? s), e, ?_, Node.node_of_report? he⟩
  unfold Node.events
  rw [h, List.filterMap_append, List.filterMap_cons_some he]
  rw [List.filterMap_eq_nil_iff.mpr hafter]

theorem explains_of_ascending {g : Graph} {v : View} {c : Context} {s : Scene}
    (hs : Scene.ofView v c = .ok s) (h : Node.Ascending g.root.preorder) :
    g.Explains v c (g.root.decide s) (g.root.events s) := by
  have hfind {n : Node} {e : TraceEvent} (hn : n ∈ g.root.preorder) (he : n.report? s = some e) :
      g.node? e.node = some n := by
    rw [Node.node_of_report? he]
    exact Node.find?_of_mem h hn
  constructor
  case reports =>
    intro e he
    obtain ⟨n, hn, hreport⟩ := Node.mem_events.mp he
    have hmem := Node.mem_preorder_of_mem_evaluated hn
    exact ⟨n, hfind hmem hreport, Node.reports_of_report? hs hreport⟩
  case distinct =>
    apply Node.pairwise_events h
    intro m hm m' hm' hbefore e e' he he' hnode
    apply hbefore.not_mem (h.of_mem_preorder hm) (h.of_mem_preorder hm')
    rw [Node.node_of_report? he, Node.node_of_report? he'] at hnode
    rw [← Node.eq_of_id_eq h hm hm' hnode]
    exact Node.self_mem_preorder m
  case leaves =>
    rw [List.pairwise_filter]
    apply Node.pairwise_events h
    intro m _ m' _ hbefore e e' he he' _ hkind
    rw [Node.node_of_report? he, Node.node_of_report? he']
    apply hbefore.id_lt
    apply Node.children_of_report? he'
    simpa using hkind
  case subtrees =>
    apply Node.pairwise_events h
    intro m hm m' hm' hbefore e e' he he' n hn x hx hnode
    rw [hfind hm he] at hn
    obtain rfl := Option.some.inj hn
    rw [Node.node_of_report? he'] at hnode
    apply hbefore.not_mem (h.of_mem_preorder hm) (h.of_mem_preorder hm')
    rw [Node.eq_of_id_eq h hm' (Node.preorder_subset hm hx) hnode]
    exact hx
  case occurs_iff =>
    intro n hn hpassing
    rw [Node.exists_event_iff h hn hpassing]
    constructor
    · exact Node.arrives_of_mem_evaluated hs h
    · exact Node.mem_evaluated_of_arrives hs hn
  case last =>
    intro n hn hpassing
    obtain ⟨m, hm, hid, before, after, hevaluated, hafter⟩ :=
      Node.exists_last_decider s g.root
    rw [← hid]
    rw [← hid, node?, Node.find?_of_mem h hm] at hn
    obtain rfl := Option.some.inj hn
    exact last_of_evaluated hevaluated hafter hpassing

theorem exists_explanation {σ : Type} {t : SyntaxTree σ} {g : Graph} (h : t.compile = .ok g)
    (hsize : t.nodeCount < UInt32.size) (v : View) (c : Context) (hcheck : c.check v = .ok ()) :
    ∃ d events, g.tick v c = .ok d ∧
      g.Traces v c d (events ++ [⟨c.tick, .fired, d.node, d.action.code⟩]) ∧
      g.Explains v c d events := by
  obtain ⟨s, hs⟩ := Scene.exists_ofView hcheck
  refine ⟨g.root.decide s, g.root.events s, tick_of_scene hs, traces_of_scene g hs, ?_⟩
  exact explains_of_ascending hs (ascending_of_compile h hsize)

theorem exists_explanation_engage :
    ∃ g, SyntaxTree.engage.compile = .ok g ∧ SyntaxTree.engage.nodeCount < UInt32.size ∧
      Context.duel.check .duel = .ok () ∧
      ∃ d events, g.tick .duel .duel = .ok d ∧
        g.Traces .duel .duel d (events ++ [⟨Context.duel.tick, .fired, d.node, d.action.code⟩]) ∧
        g.Explains .duel .duel d events := by
  have hsize : SyntaxTree.engage.nodeCount < UInt32.size := by decide
  refine ⟨_, rfl, hsize, Context.check_duel, ?_⟩
  exact exists_explanation rfl hsize .duel .duel Context.check_duel

end Graph

end BattleTree
