import BattleTree.Proofs.Graph.Deciding

/-!
This module contains the meaning of programs in terms of their parts: what a composite or a
decorated program decides is said by the decisions that its children come to as programs of their
own, and only the numbers of nodes are shifted.
-/

namespace BattleTree

inductive Transform.Yields : Transform → Status → Status → Prop where
  | inverted_success : Yields .invert .success .failure
  | inverted_failure : Yields .invert .failure .success
  | inverted_running : Yields .invert .running .running
  | succeeded (status : Status) : Yields .forceSuccess status .success
  | failed (status : Status) : Yields .forceFailure status .failure

theorem Transform.yields_applyStatus (transform : Transform) (status : Status) :
    transform.Yields status (transform.applyStatus status) := by
  cases transform with
  | invert =>
    cases status with
    | success => exact .inverted_success
    | failure => exact .inverted_failure
    | running => exact .inverted_running
  | forceSuccess => exact .succeeded status
  | forceFailure => exact .failed status

namespace Decision

def renumber (f : NodeId → NodeId) (d : Decision) : Decision :=
  { d with node := f d.node }

/-- The decision of a child in a composite with as many nodes between the two as given. -/
def within (before : Nat) (d : Decision) : Decision :=
  { d with node := d.node + 1 + UInt32.ofNat before }

@[simp]
theorem renumber_status (f : NodeId → NodeId) (d : Decision) : (d.renumber f).status = d.status :=
  rfl

end Decision

namespace Node

theorem sequenceOf_renumber (f : NodeId → NodeId) (last : Decision) (ds : List Decision) :
    sequenceOf (last.renumber f) (ds.map (·.renumber f)) = (sequenceOf last ds).renumber f := by
  induction ds generalizing last with
  | nil => rfl
  | cons d ds ih =>
    rw [List.map_cons, sequenceOf_cons, sequenceOf_cons, ih, Decision.renumber_status]
    split <;> rfl

theorem fallbackOf_renumber (f : NodeId → NodeId) (exhausted : Decision) (ds : List Decision) :
    fallbackOf (exhausted.renumber f) (ds.map (·.renumber f)) =
      (fallbackOf exhausted ds).renumber f := by
  induction ds with
  | nil => rfl
  | cons d ds ih =>
    rw [List.map_cons, fallbackOf_cons, fallbackOf_cons, ih, Decision.renumber_status]
    split <;> rfl

mutual

theorem decide_renumber (s : Scene) (f : NodeId → NodeId) (n : Node) :
    (n.renumber f).decide s = (n.decide s).renumber f := by
  cases n with
  | leaf id atomic =>
    rw [renumber, decide_leaf, decide_leaf]
    rfl
  | sequence id ns =>
    rw [renumber, decide_sequence, decide_sequence, ← sequenceOf_renumber,
      decisions_renumberAll s f ns]
    rfl
  | fallback id ns =>
    rw [renumber, decide_fallback, decide_fallback, ← fallbackOf_renumber,
      decisions_renumberAll s f ns]
    rfl
  | decorator id transform n =>
    rw [renumber, decide_decorator, decide_decorator, decide_renumber s f n]
    rfl

theorem decisions_renumberAll (s : Scene) (f : NodeId → NodeId) (ns : List Node) :
    decisions s (renumberAll f ns) = (decisions s ns).map (·.renumber f) := by
  cases ns with
  | nil => rfl
  | cons n ns =>
    rw [renumberAll, decisions_cons, decisions_cons, List.map_cons, decide_renumber s f n,
      decisions_renumberAll s f ns]

end

end Node

namespace SyntaxTree

variable {σ : Type}

mutual

theorem Binds.renumber (f : NodeId → NodeId) (t : SyntaxTree σ) {n : Node} (h : t.Binds n) :
    t.Binds (n.renumber f) := by
  cases h with
  | sequence hts => exact .sequence (Binds.renumberAll f _ hts)
  | fallback hts => exact .fallback (Binds.renumberAll f _ hts)
  | action hcall hrole => exact .action hcall hrole
  | condition hcall hrole => exact .condition hcall hrole
  | decorator hcall ht => exact .decorator hcall (Binds.renumber f _ ht)

theorem Binds.renumberAll (f : NodeId → NodeId) (ts : List (SyntaxTree σ)) {ns : List Node}
    (h : List.Forall₂ Binds ts ns) : List.Forall₂ Binds ts (Node.renumberAll f ns) := by
  cases h with
  | nil => exact .nil
  | cons ht hts => exact .cons (Binds.renumber f _ ht) (Binds.renumberAll f _ hts)

end

theorem compileFrom_of_compile {t : SyntaxTree σ} {g : Graph} (h : t.compile = .ok g)
    (next : NodeId) :
    t.compileFrom next = .ok (g.root.renumber (next + ·), next + UInt32.ofNat t.nodeCount) := by
  obtain ⟨hbinds, hids, -⟩ := compile_eq_ok_iff.mp h
  apply compileFrom_of_binds t (hbinds.renumber _)
  rw [Node.map_id_preorder_renumber, hids, NodeId.map_block, UInt32.add_zero]

/-- The tree, compiled and ticked as a program of its own, comes to this decision. -/
def Decides (v : View) (c : Context) (t : SyntaxTree σ) (d : Decision) : Prop :=
  ∃ g, t.compile = .ok g ∧ g.tick v c = .ok d

section

variable {v : View} {c : Context} {s : Scene} {t : SyntaxTree σ} {ts : List (SyntaxTree σ)}
  {d : Decision} {ds : List Decision}

theorem decides_of_compileFrom {n : Node} {after : NodeId} (hs : Scene.ofView v c = .ok s)
    (h : t.compileFrom 0 = .ok (n, after)) : t.Decides v c (n.decide s) := by
  refine ⟨⟨n, after.toUInt64⟩, ?_, Graph.tick_of_scene hs⟩
  unfold compile
  rw [h]
  rfl

theorem Decides.compileFrom (hs : Scene.ofView v c = .ok s) (h : t.Decides v c d)
    (next : NodeId) :
    ∃ n, t.compileFrom next = .ok (n, next + UInt32.ofNat t.nodeCount) ∧
      n.decide s = d.renumber (next + ·) := by
  obtain ⟨g, hg, htick⟩ := h
  rw [Graph.tick_of_scene hs] at htick
  refine ⟨_, compileFrom_of_compile hg next, ?_⟩
  rw [Node.decide_renumber, Except.ok.inj htick]

def decisionsFrom (next : NodeId) : List (SyntaxTree σ) → List Decision → List Decision
  | t :: ts, d :: ds =>
    d.renumber (next + ·) :: decisionsFrom (next + UInt32.ofNat t.nodeCount) ts ds
  | _, _ => []

theorem exists_compileAllFrom (hs : Scene.ofView v c = .ok s)
    (h : List.Forall₂ (Decides v c) ts ds) (next : NodeId) :
    ∃ ns after, compileAllFrom next ts = .ok (ns, after) ∧
      Node.decisions s ns = decisionsFrom next ts ds := by
  induction h generalizing next with
  | nil => exact ⟨[], next, rfl, rfl⟩
  | @cons t d ts ds ht _ ih =>
    obtain ⟨n, hn, hd⟩ := ht.compileFrom hs next
    obtain ⟨ns, after, hns, hds⟩ := ih (next + UInt32.ofNat t.nodeCount)
    refine ⟨n :: ns, after, ?_, ?_⟩
    · rw [compileAllFrom, hn]
      dsimp only [bind, Except.bind]
      rw [hns]
      rfl
    · rw [Node.decisions_cons, hd, hds]
      rfl

theorem decides_sequence (hs : Scene.ofView v c = .ok s) (h : List.Forall₂ (Decides v c) ts ds)
    (m : σ) :
    (sequence m ts).Decides v c
      (Node.sequenceOf (.idle .success 0) (decisionsFrom (0 + 1) ts ds)) := by
  obtain ⟨ns, after, hns, hds⟩ := exists_compileAllFrom hs h (0 + 1)
  have hcompile : (sequence m ts).compileFrom 0 = .ok (.sequence 0 ns, after) := by
    rw [compileFrom, hns]
    rfl
  rw [← hds, ← Node.decide_sequence]
  exact decides_of_compileFrom hs hcompile

theorem decides_fallback (hs : Scene.ofView v c = .ok s) (h : List.Forall₂ (Decides v c) ts ds)
    (m : σ) :
    (fallback m ts).Decides v c
      (Node.fallbackOf (.idle .failure 0) (decisionsFrom (0 + 1) ts ds)) := by
  obtain ⟨ns, after, hns, hds⟩ := exists_compileAllFrom hs h (0 + 1)
  have hcompile : (fallback m ts).compileFrom 0 = .ok (.fallback 0 ns, after) := by
    rw [compileFrom, hns]
    rfl
  rw [← hds, ← Node.decide_fallback]
  exact decides_of_compileFrom hs hcompile

theorem length_decisionsFrom (h : ts.length = ds.length) (next : NodeId) :
    (decisionsFrom next ts ds).length = ds.length := by
  induction ts generalizing ds next with
  | nil =>
    obtain rfl := List.eq_nil_of_length_eq_zero h.symm
    rfl
  | cons t ts ih =>
    obtain ⟨d, ds, rfl⟩ := List.exists_cons_of_length_eq_add_one h.symm
    rw [decisionsFrom, List.length_cons, List.length_cons, ih (Nat.succ.inj h)]

theorem getElem?_decisionsFrom (h : ts.length = ds.length) (next : NodeId) (i : Nat) :
    (decisionsFrom next ts ds)[i]? = ds[i]?.map
      (·.renumber (next + UInt32.ofNat (nodeCountAll (ts.take i)) + ·)) := by
  induction ts generalizing ds next i with
  | nil =>
    obtain rfl := List.eq_nil_of_length_eq_zero h.symm
    rfl
  | cons t ts ih =>
    obtain ⟨d, ds, rfl⟩ := List.exists_cons_of_length_eq_add_one h.symm
    cases i with
    | zero => simp [decisionsFrom, nodeCountAll]
    | succ i =>
      rw [decisionsFrom, List.getElem?_cons_succ, List.getElem?_cons_succ, ih (Nat.succ.inj h),
        List.take_succ_cons, nodeCountAll, UInt32.ofNat_add, UInt32.add_assoc]

theorem exists_of_getElem?_decisionsFrom {i : Nat} {x : Decision} (h : ts.length = ds.length)
    (hx : (decisionsFrom (0 + 1) ts ds)[i]? = some x) :
    ∃ d, ds[i]? = some d ∧ x = d.within (nodeCountAll (ts.take i)) := by
  rw [getElem?_decisionsFrom h, Option.map_eq_some_iff] at hx
  obtain ⟨d, hd, rfl⟩ := hx
  refine ⟨d, hd, ?_⟩
  -- The composite itself has the number zero, so its children start with one.
  dsimp only [Decision.renumber, Decision.within]
  rw [UInt32.zero_add, UInt32.add_comm, ← UInt32.add_assoc]

theorem allBefore_of_decisionsFrom {status : Status} {i : Nat} (h : ts.length = ds.length)
    (hbefore : Decision.AllBefore status (decisionsFrom (0 + 1) ts ds) i) :
    Decision.AllBefore status ds i := by
  intro j d hj hd
  apply hbefore j (d.renumber _) hj
  rw [getElem?_decisionsFrom h, hd]
  rfl

inductive SequenceAnswer (ts : List (SyntaxTree σ)) (ds : List Decision) : Decision → Prop where
  | empty : ds = [] → SequenceAnswer ts ds (.idle .success 0)
  | child {i : Nat} {d : Decision} : ds[i]? = some d → Decision.AllBefore .success ds i →
      d.status ≠ .success ∨ ds.length = i + 1 →
      SequenceAnswer ts ds (d.within (nodeCountAll (ts.take i)))

inductive FallbackAnswer (ts : List (SyntaxTree σ)) (ds : List Decision) : Decision → Prop where
  | exhausted : (∀ d ∈ ds, d.status = .failure) → FallbackAnswer ts ds (.idle .failure 0)
  | child {i : Nat} {d : Decision} : ds[i]? = some d → Decision.AllBefore .failure ds i →
      d.status ≠ .failure → FallbackAnswer ts ds (d.within (nodeCountAll (ts.take i)))

theorem exists_sequenceAnswer (hs : Scene.ofView v c = .ok s)
    (h : List.Forall₂ (Decides v c) ts ds) (m : σ) :
    ∃ d, (sequence m ts).Decides v c d ∧ SequenceAnswer ts ds d := by
  refine ⟨_, decides_sequence hs h m, ?_⟩
  rcases Node.sequenceOf_cases (.idle .success 0) (decisionsFrom (0 + 1) ts ds) with
    ⟨hnil, hlast⟩ | ⟨i, x, hx, hi, hbefore, hdecides⟩
  · rw [hlast]
    apply SequenceAnswer.empty
    rw [← List.length_eq_zero_iff, ← length_decisionsFrom h.length_eq (0 + 1), hnil]
    rfl
  · obtain ⟨d, hd, rfl⟩ := exists_of_getElem?_decisionsFrom h.length_eq hi
    rw [length_decisionsFrom h.length_eq] at hdecides
    rw [hx]
    exact .child hd (allBefore_of_decisionsFrom h.length_eq hbefore) hdecides

theorem exists_fallbackAnswer (hs : Scene.ofView v c = .ok s)
    (h : List.Forall₂ (Decides v c) ts ds) (m : σ) :
    ∃ d, (fallback m ts).Decides v c d ∧ FallbackAnswer ts ds d := by
  refine ⟨_, decides_fallback hs h m, ?_⟩
  rcases Node.fallbackOf_cases (.idle .failure 0) (decisionsFrom (0 + 1) ts ds) with
    ⟨hall, hexhausted⟩ | ⟨i, x, hx, hi, hbefore, hdecides⟩
  · rw [hexhausted]
    apply FallbackAnswer.exhausted
    intro d hd
    obtain ⟨i, hi⟩ := List.mem_iff_getElem?.mp hd
    exact allBefore_of_decisionsFrom h.length_eq (Decision.allBefore_of_forall hall (i + 1)) i d
      (Nat.lt_succ_self i) hi
  · obtain ⟨d, hd, rfl⟩ := exists_of_getElem?_decisionsFrom h.length_eq hi
    rw [hx]
    exact .child hd (allBefore_of_decisionsFrom h.length_eq hbefore) hdecides

theorem Decides.unique {d' : Decision} (h : t.Decides v c d) (h' : t.Decides v c d') : d = d' := by
  obtain ⟨g, hg, hd⟩ := h
  obtain ⟨g', hg', hd'⟩ := h'
  obtain rfl := Except.ok.inj (hg.symm.trans hg')
  exact Except.ok.inj (hd.symm.trans hd')

theorem Decides.decorator {m : σ} {call : Call} {transform : Transform}
    (hs : Scene.ofView v c = .ok s) (hcall : resolve call m = .ok (.transform transform))
    (h : t.Decides v c d) :
    (decorator m call t).Decides v c
      { status := transform.applyStatus d.status, action := d.action, node := 0 } := by
  obtain ⟨n, hn, hd⟩ := h.compileFrom hs (0 + 1)
  have hcompile : (SyntaxTree.decorator m call t).compileFrom 0 =
      .ok (.decorator 0 transform n, 0 + 1 + UInt32.ofNat t.nodeCount) := by
    rw [SyntaxTree.compileFrom, compileTransform_eq_ok_iff.mpr hcall]
    dsimp only [bind, Except.bind]
    rw [hn]
    rfl
  have hdecides := decides_of_compileFrom hs hcompile
  rw [Node.decide_decorator, hd] at hdecides
  exact hdecides

theorem Decides.node_lt (h : t.Decides v c d) (hsize : t.nodeCount < UInt32.size) :
    d.node.toNat < t.nodeCount := by
  obtain ⟨g, hg, htick⟩ := h
  obtain ⟨s, hs, rfl⟩ := Graph.exists_scene_of_tick htick
  obtain ⟨n, hn, -, hid, -⟩ := Node.exists_decider s g.root
  rw [← hid, ← List.mem_range, ← toNat_id_preorder_of_compile hg hsize]
  exact List.mem_map_of_mem hn

theorem nodeCountAll_take_le {i : Nat} (h : ts[i]? = some t) :
    nodeCountAll (ts.take i) + t.nodeCount ≤ nodeCountAll ts := by
  induction ts generalizing i with
  | nil => cases h
  | cons u ts ih =>
    cases i with
    | zero =>
      obtain rfl := Option.some.inj h
      simp [nodeCountAll]
    | succ i =>
      have := ih h
      simp only [List.take_succ_cons, nodeCountAll]
      omega

theorem toNat_within {i : Nat} (h : List.Forall₂ (Decides v c) ts ds) (hd : ds[i]? = some d)
    (hsize : 1 + nodeCountAll ts < UInt32.size) :
    (d.within (nodeCountAll (ts.take i))).node.toNat =
      d.node.toNat + 1 + nodeCountAll (ts.take i) := by
  have hrel := forall₂_getElem? h i
  rw [hd] at hrel
  generalize ht : ts[i]? = found at hrel
  cases hrel with
  | some hdecides =>
    have hle := nodeCountAll_take_le ht
    have hlt := hdecides.node_lt (by omega)
    unfold UInt32.size at hsize
    dsimp only [Decision.within]
    rw [UInt32.toNat_add, UInt32.toNat_add, UInt32.toNat_ofNat', UInt32.toNat_one]
    omega

end

theorem decides_composite {v : View} {c : Context} (hcheck : c.check v = .ok ())
    {ts : List (SyntaxTree σ)} (h : ∀ t ∈ ts, ∃ g, t.compile = .ok g) (m : σ) :
    ∃ ds, List.Forall₂ (Decides v c) ts ds ∧
      (∃ d, (sequence m ts).Decides v c d ∧ SequenceAnswer ts ds d) ∧
      (∃ d, (fallback m ts).Decides v c d ∧ FallbackAnswer ts ds d) ∧
      (∀ call transform t d, resolve call m = .ok (.transform transform) → t.Decides v c d →
        ∃ status, transform.Yields d.status status ∧
          (decorator m call t).Decides v c { status, action := d.action, node := 0 }) ∧
      ∀ i d, ds[i]? = some d → 1 + nodeCountAll ts < UInt32.size →
        (d.within (nodeCountAll (ts.take i))).node.toNat =
          d.node.toNat + 1 + nodeCountAll (ts.take i) := by
  obtain ⟨s, hs⟩ := Scene.exists_ofView hcheck
  have hdecides : ∀ t ∈ ts, ∃ d, t.Decides v c d := by
    intro t ht
    obtain ⟨g, hg⟩ := h t ht
    exact ⟨g.root.decide s, g, hg, Graph.tick_of_scene hs⟩
  obtain ⟨ds, hds⟩ := exists_forall₂ hdecides
  refine ⟨ds, hds, exists_sequenceAnswer hs hds m, exists_fallbackAnswer hs hds m, ?_, ?_⟩
  · intro call transform t d hcall ht
    exact ⟨_, transform.yields_applyStatus d.status, ht.decorator hs hcall⟩
  · intro i d hd hsize
    exact toNat_within hds hd hsize

theorem decides_composite_engage :
    let ts : List (SyntaxTree Nat) := [engage, .action 7 ⟨"stand", []⟩]
    let attacks : Decision := { status := .success, action := ⟨5⟩, node := 3 }
    let stands : Decision := { status := .success, action := .stand, node := 0 }
    Context.duel.check .duel = .ok () ∧ (∀ t ∈ ts, ∃ g, t.compile = .ok g) ∧
      List.Forall₂ (Decides .duel .duel) ts [attacks, stands] ∧
        (∃ d, (sequence 8 ts).Decides .duel .duel d ∧ SequenceAnswer ts [attacks, stands] d) ∧
        (∃ d, (fallback 8 ts).Decides .duel .duel d ∧ FallbackAnswer ts [attacks, stands] d) ∧
        (decorator 8 ⟨"invert", []⟩ engage).Decides .duel .duel
          { status := .failure, action := ⟨5⟩, node := 0 } ∧
        (stands.within engage.nodeCount).node.toNat = 8 := by
  intro ts attacks stands
  have hts : ∀ t ∈ ts, ∃ g, t.compile = .ok g := by
    simp only [ts, List.forall_mem_cons]
    exact ⟨⟨_, rfl⟩, ⟨_, rfl⟩, List.forall_mem_nil _⟩
  have hengage : engage.Decides .duel .duel attacks := ⟨_, rfl, by decide +kernel⟩
  have hstand : (SyntaxTree.action 7 ⟨"stand", []⟩).Decides .duel .duel stands :=
    ⟨_, rfl, by decide +kernel⟩
  obtain ⟨ds, hds, hsequence, hfallback, hdecorator, hnode⟩ :=
    decides_composite Context.check_duel hts 8
  obtain rfl : ds = [attacks, stands] := by
    obtain ⟨_, _, hfirst, hrest, rfl⟩ := List.forall₂_cons_left_iff.mp hds
    obtain ⟨_, _, hsecond, hnone, rfl⟩ := List.forall₂_cons_left_iff.mp hrest
    obtain rfl := List.forall₂_nil_left_iff.mp hnone
    rw [hfirst.unique hengage, hsecond.unique hstand]
  obtain ⟨status, hyields, hinverted⟩ := hdecorator ⟨"invert", []⟩ .invert _ _ rfl hengage
  cases hyields
  exact ⟨Context.check_duel, hts, hds, hsequence, hfallback, hinverted,
    hnode 1 stands rfl (by decide)⟩

end SyntaxTree

end BattleTree
