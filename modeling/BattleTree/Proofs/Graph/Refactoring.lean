import BattleTree.Proofs.Graph.Composition

/-!
This module contains the laws by which programs can be refactored: a composite inside of a composite
of its kind can be dissolved, and an inversion can be moved inside of a composite, which becomes one
of the other kind. The laws hold up to the node that decides, with side conditions where composites
that nobody decides have actions of their own.
-/

namespace BattleTree

namespace Outcome

def done : Outcome :=
  { status := .success, action := .stand }

theorem status_done : done.status = .success := by
  rfl

def sequence (last : Outcome) : List Outcome → Outcome
  | [] => last
  | o :: os => if o.status = .success then sequence o os else o

def fallback : List Outcome → Outcome
  | [] => miss
  | o :: os => if o.status = .failure then fallback os else o

def invert (o : Outcome) : Outcome :=
  Transform.invert.apply o

theorem toOutcome_sequenceOf (last : Decision) (ds : List Decision) :
    (Node.sequenceOf last ds).toOutcome = sequence last.toOutcome (ds.map (·.toOutcome)) := by
  induction ds generalizing last with
  | nil => rfl
  | cons d ds ih =>
    rw [Node.sequenceOf_cons, List.map_cons, sequence, ← ih]
    split <;> rfl

theorem toOutcome_fallbackOf (id : NodeId) (ds : List Decision) :
    (Node.fallbackOf (.idle .failure id) ds).toOutcome = fallback (ds.map (·.toOutcome)) := by
  induction ds with
  | nil => rfl
  | cons d ds ih =>
    rw [Node.fallbackOf_cons, List.map_cons, fallback, ← ih]
    split <;> rfl

theorem fallback_append (xs ys : List Outcome) :
    fallback (xs ++ ys) = if (fallback xs).status = .failure then fallback ys else fallback xs := by
  induction xs with
  | nil => rfl
  | cons x xs ih =>
    rw [List.cons_append, fallback, fallback, ih]
    split
    · rfl
    · rfl

theorem sequence_append {last : Outcome} (hlast : last.status = .success) (xs ys : List Outcome) :
    sequence last (xs ++ ys) =
      if (sequence last xs).status = .success then sequence (sequence last xs) ys
      else sequence last xs := by
  induction xs generalizing last with
  | nil =>
    rw [List.nil_append, sequence, if_pos hlast]
  | cons x xs ih =>
    rw [List.cons_append, sequence, sequence]
    split
    · next hx => exact ih hx
    · rfl

theorem fallback_nested (xs ys zs : List Outcome) :
    fallback (xs ++ fallback ys :: zs) = fallback (xs ++ ys ++ zs) := by
  rw [List.append_assoc, fallback_append, fallback_append xs, fallback_append ys, fallback]

theorem sequence_congr (last last' : Outcome) {os : List Outcome} (h : os ≠ []) :
    sequence last os = sequence last' os := by
  cases os with
  | nil => exact absurd rfl h
  | cons o os => rfl

theorem sequence_nested (xs ys zs : List Outcome) :
    (sequence done (xs ++ sequence done ys :: zs)).status =
        (sequence done (xs ++ ys ++ zs)).status ∧
      (¬(ys = [] ∧ zs = []) →
        sequence done (xs ++ sequence done ys :: zs) = sequence done (xs ++ ys ++ zs)) := by
  have hinner : ∀ last, sequence last (sequence done ys :: zs) = sequence done (ys ++ zs) := by
    intro last
    rw [sequence_append rfl, sequence]
  rw [List.append_assoc, sequence_append rfl, sequence_append rfl, hinner]
  constructor
  · split
    · next hxs =>
      cases hrest : ys ++ zs with
      | nil => exact hxs.symm
      | cons o os => rfl
    · rfl
  · intro hne
    have hrest : ys ++ zs ≠ [] := fun h => hne (List.append_eq_nil_iff.mp h)
    rw [sequence_congr done _ hrest]

example :
    let shot : Outcome := { status := .success, action := ⟨5⟩ }
    sequence done [shot, sequence done []] = done ∧ sequence done [shot] = shot := by
  decide

theorem invert_status_eq_failure_iff (o : Outcome) :
    o.invert.status = .failure ↔ o.status = .success := by
  unfold invert
  rw [Transform.apply_status]
  cases o.status <;> decide

theorem invert_status_eq_success_iff (o : Outcome) :
    o.invert.status = .success ↔ o.status = .failure := by
  unfold invert
  rw [Transform.apply_status]
  cases o.status <;> decide

theorem invert_sequence {last : Outcome} (hlast : last.status = .success) (os : List Outcome) :
    (sequence last os).invert.status = (fallback (os.map invert)).status ∧
      ((∃ o ∈ os, o.status ≠ .success) →
        (sequence last os).invert = fallback (os.map invert)) := by
  induction os generalizing last with
  | nil => exact ⟨(invert_status_eq_failure_iff last).mpr hlast, by simp⟩
  | cons o os ih =>
    simp only [List.map_cons, sequence, fallback, invert_status_eq_failure_iff]
    split
    · next ho =>
      rw [List.exists_mem_cons_iff]
      exact ⟨(ih ho).1, fun h => (ih ho).2 (h.resolve_left (not_not.mpr ho))⟩
    · exact ⟨rfl, fun _ => rfl⟩

theorem invert_fallback {last : Outcome} (hlast : last.status = .success) (os : List Outcome) :
    (fallback os).invert.status = (sequence last (os.map invert)).status ∧
      ((∃ o ∈ os, o.status ≠ .failure) →
        (fallback os).invert = sequence last (os.map invert)) := by
  induction os generalizing last with
  | nil => exact ⟨hlast.symm, by simp⟩
  | cons o os ih =>
    simp only [List.map_cons, sequence, fallback, invert_status_eq_success_iff]
    split
    · next ho =>
      have ih := ih ((invert_status_eq_success_iff o).mpr ho)
      rw [List.exists_mem_cons_iff]
      exact ⟨ih.1, fun h => ih.2 (h.resolve_left (not_not.mpr ho))⟩
    · exact ⟨rfl, fun _ => rfl⟩

end Outcome

namespace SyntaxTree

variable {σ : Type}

/-- Both trees can be compiled and tick alike as far as `f` sees it, or with the same fault. -/
def TicksAlike {α : Type} (f : Outcome → α) (v : View) (c : Context) (t u : SyntaxTree σ) : Prop :=
  ∃ g h, t.compile = .ok g ∧ u.compile = .ok h ∧
    (g.tick v c).map (f ·.toOutcome) = (h.tick v c).map (f ·.toOutcome)

def inverted (m : σ) (t : SyntaxTree σ) : SyntaxTree σ :=
  decorator m ⟨"invert", []⟩ t

def Inverts (t u : SyntaxTree σ) : Prop :=
  ∃ m, u = inverted m t

def Reports (v : View) (c : Context) (t : SyntaxTree σ) (o : Outcome) : Prop :=
  ∃ d, t.Decides v c d ∧ d.toOutcome = o

theorem resolve_invert (m : σ) : resolve ⟨"invert", []⟩ m = .ok (.transform .invert) := by
  rfl

section Compile

variable {ts us : List (SyntaxTree σ)} {t : SyntaxTree σ}

theorem resolves_preorderAll (h : ∀ t ∈ ts, ∃ g, t.compile = .ok g) :
    ∀ u ∈ preorderAll ts, u.Resolves := by
  intro u hu
  obtain ⟨t, ht, hut⟩ := mem_preorderAll.mp hu
  exact exists_compile_iff.mp (h t ht) u hut

theorem exists_compile_sequence (m : σ) (h : ∀ t ∈ ts, ∃ g, t.compile = .ok g) :
    ∃ g, (sequence m ts).compile = .ok g := by
  rw [exists_compile_iff, preorder, List.forall_mem_cons]
  refine ⟨?_, resolves_preorderAll h⟩
  intro call hcall
  cases hcall

theorem exists_compile_fallback (m : σ) (h : ∀ t ∈ ts, ∃ g, t.compile = .ok g) :
    ∃ g, (fallback m ts).compile = .ok g := by
  rw [exists_compile_iff, preorder, List.forall_mem_cons]
  refine ⟨?_, resolves_preorderAll h⟩
  intro call hcall
  cases hcall

theorem exists_compile_inverted (m : σ) (h : ∃ g, t.compile = .ok g) :
    ∃ g, (inverted m t).compile = .ok g := by
  rw [exists_compile_iff] at h ⊢
  rw [inverted, preorder, List.forall_mem_cons]
  refine ⟨?_, h⟩
  intro call hcall
  obtain rfl := Option.some.inj hcall
  exact ⟨_, resolve_invert m, rfl⟩

theorem exists_compile_of_inverts (h : ∀ t ∈ ts, ∃ g, t.compile = .ok g)
    (hus : List.Forall₂ Inverts ts us) : ∀ u ∈ us, ∃ g, u.compile = .ok g := by
  intro u hu
  obtain ⟨t, ht, m, rfl⟩ := exists_of_mem_forall₂ hus hu
  exact exists_compile_inverted m (h t ht)

end Compile

section Reports

variable {v : View} {c : Context} {s : Scene} {t : SyntaxTree σ} {ts us : List (SyntaxTree σ)}
  {d : Decision} {o : Outcome} {os : List Outcome}

theorem exists_decisions (h : List.Forall₂ (Reports v c) ts os) :
    ∃ ds : List Decision, List.Forall₂ (Decides v c) ts ds ∧ ds.map (·.toOutcome) = os := by
  induction h with
  | nil => exact ⟨[], .nil, rfl⟩
  | cons ht _ ih =>
    obtain ⟨d, hd, rfl⟩ := ht
    obtain ⟨ds, hds, rfl⟩ := ih
    exact ⟨d :: ds, .cons hd hds, rfl⟩

theorem map_toOutcome_decisionsFrom {ds : List Decision} (h : List.Forall₂ (Decides v c) ts ds)
    (next : NodeId) : (decisionsFrom next ts ds).map (·.toOutcome) = ds.map (·.toOutcome) := by
  induction h generalizing next with
  | nil => rfl
  | cons _ _ ih =>
    rw [decisionsFrom, List.map_cons, List.map_cons, ih]
    rfl

theorem Reports.sequence (hs : Scene.ofView v c = .ok s) (m : σ)
    (h : List.Forall₂ (Reports v c) ts os) :
    (sequence m ts).Reports v c (.sequence .done os) := by
  obtain ⟨ds, hds, rfl⟩ := exists_decisions h
  refine ⟨_, decides_sequence hs hds m, ?_⟩
  rw [Outcome.toOutcome_sequenceOf, map_toOutcome_decisionsFrom hds]
  rfl

theorem Reports.fallback (hs : Scene.ofView v c = .ok s) (m : σ)
    (h : List.Forall₂ (Reports v c) ts os) :
    (fallback m ts).Reports v c (.fallback os) := by
  obtain ⟨ds, hds, rfl⟩ := exists_decisions h
  refine ⟨_, decides_fallback hs hds m, ?_⟩
  rw [Outcome.toOutcome_fallbackOf, map_toOutcome_decisionsFrom hds]

theorem Reports.inverted (hs : Scene.ofView v c = .ok s) (m : σ) (h : t.Reports v c o) :
    (inverted m t).Reports v c o.invert := by
  obtain ⟨d, hd, rfl⟩ := h
  exact ⟨_, hd.decorator hs (resolve_invert m), rfl⟩

theorem reports_of_inverts (hs : Scene.ofView v c = .ok s) (h : List.Forall₂ Inverts ts us)
    (hts : List.Forall₂ (Reports v c) ts os) :
    List.Forall₂ (Reports v c) us (os.map Outcome.invert) := by
  induction hts generalizing us with
  | nil =>
    cases h
    exact .nil
  | cons ht _ ih =>
    cases h with
    | cons hu hus =>
      obtain ⟨m, rfl⟩ := hu
      exact .cons (ht.inverted hs m) (ih hus)

theorem exists_reports (hs : Scene.ofView v c = .ok s) (h : ∀ t ∈ ts, ∃ g, t.compile = .ok g) :
    ∃ os, List.Forall₂ (Reports v c) ts os := by
  apply exists_forall₂
  intro t ht
  obtain ⟨g, hg⟩ := h t ht
  exact ⟨_, _, ⟨g, hg, Graph.tick_of_scene hs⟩, rfl⟩

theorem Reports.eq_of_decides (h : t.Reports v c o) (hd : t.Decides v c d) : d.toOutcome = o := by
  obtain ⟨e, ⟨g, hg, he⟩, rfl⟩ := h
  obtain ⟨g', hg', hd⟩ := hd
  obtain rfl := Except.ok.inj (hg.symm.trans hg')
  obtain rfl := Except.ok.inj (he.symm.trans hd)
  rfl

theorem exists_outcome_of_decides (hts : List.Forall₂ (Reports v c) ts os) (p : Status → Prop)
    (h : ∃ t ∈ ts, ∃ d, t.Decides v c d ∧ p d.status) : ∃ o ∈ os, p o.status := by
  obtain ⟨t, ht, d, hd, hp⟩ := h
  obtain ⟨o, ho, hreports⟩ := exists_of_mem_forall₂ hts.flip ht
  refine ⟨o, ho, ?_⟩
  rw [← Reports.eq_of_decides hreports hd]
  exact hp

end Reports

section Laws

variable {v : View} {c : Context} {s : Scene} {xs ys zs ts us : List (SyntaxTree σ)}

theorem exists_reports_fallback_nested (hs : Scene.ofView v c = .ok s) (m m' m'' : σ)
    (h : ∀ t ∈ xs ++ ys ++ zs, ∃ g, t.compile = .ok g) :
    ∃ o, (fallback m (xs ++ fallback m' ys :: zs)).Reports v c o ∧
      (fallback m'' (xs ++ ys ++ zs)).Reports v c o := by
  rw [List.forall_mem_append, List.forall_mem_append] at h
  obtain ⟨os, hxs⟩ := exists_reports hs h.1.1
  obtain ⟨ps, hys⟩ := exists_reports hs h.1.2
  obtain ⟨qs, hzs⟩ := exists_reports hs h.2
  refine ⟨_, .fallback hs m (List.rel_append hxs (.cons (.fallback hs m' hys) hzs)), ?_⟩
  rw [Outcome.fallback_nested]
  exact .fallback hs m'' (List.rel_append (List.rel_append hxs hys) hzs)

theorem exists_reports_sequence_nested (hs : Scene.ofView v c = .ok s) (m m' m'' : σ)
    (h : ∀ t ∈ xs ++ ys ++ zs, ∃ g, t.compile = .ok g) :
    ∃ o p, (sequence m (xs ++ sequence m' ys :: zs)).Reports v c o ∧
      (sequence m'' (xs ++ ys ++ zs)).Reports v c p ∧ o.status = p.status ∧
      (¬(ys = [] ∧ zs = []) → o = p) := by
  rw [List.forall_mem_append, List.forall_mem_append] at h
  obtain ⟨os, hxs⟩ := exists_reports hs h.1.1
  obtain ⟨ps, hys⟩ := exists_reports hs h.1.2
  obtain ⟨qs, hzs⟩ := exists_reports hs h.2
  obtain ⟨hstatus, heq⟩ := Outcome.sequence_nested os ps qs
  refine ⟨_, _, .sequence hs m (List.rel_append hxs (.cons (.sequence hs m' hys) hzs)),
    .sequence hs m'' (List.rel_append (List.rel_append hxs hys) hzs), hstatus, ?_⟩
  intro hne
  apply heq
  rintro ⟨rfl, rfl⟩
  cases hys
  cases hzs
  exact hne ⟨rfl, rfl⟩

theorem exists_reports_inverted_sequence (hs : Scene.ofView v c = .ok s) (m m' m'' : σ)
    (h : ∀ t ∈ ts, ∃ g, t.compile = .ok g) (hus : List.Forall₂ Inverts ts us) :
    ∃ o p, (inverted m (sequence m' ts)).Reports v c o ∧ (fallback m'' us).Reports v c p ∧
      o.status = p.status ∧
      ((∃ t ∈ ts, ∃ d, t.Decides v c d ∧ d.status ≠ .success) → o = p) := by
  obtain ⟨os, hts⟩ := exists_reports hs h
  obtain ⟨hstatus, heq⟩ := Outcome.invert_sequence Outcome.status_done os
  refine ⟨_, _, Reports.inverted hs m (.sequence hs m' hts),
    .fallback hs m'' (reports_of_inverts hs hus hts), hstatus, ?_⟩
  intro hdecides
  exact heq (exists_outcome_of_decides hts (· ≠ .success) hdecides)

theorem exists_reports_inverted_fallback (hs : Scene.ofView v c = .ok s) (m m' m'' : σ)
    (h : ∀ t ∈ ts, ∃ g, t.compile = .ok g) (hus : List.Forall₂ Inverts ts us) :
    ∃ o p, (inverted m (fallback m' ts)).Reports v c o ∧ (sequence m'' us).Reports v c p ∧
      o.status = p.status ∧
      ((∃ t ∈ ts, ∃ d, t.Decides v c d ∧ d.status ≠ .failure) → o = p) := by
  obtain ⟨os, hts⟩ := exists_reports hs h
  obtain ⟨hstatus, heq⟩ := Outcome.invert_fallback Outcome.status_done os
  refine ⟨_, _, Reports.inverted hs m (.fallback hs m' hts),
    .sequence hs m'' (reports_of_inverts hs hus hts), hstatus, ?_⟩
  intro hdecides
  exact heq (exists_outcome_of_decides hts (· ≠ .failure) hdecides)

theorem ticksAlike_of_reports {t u : SyntaxTree σ} {P : Prop} (ht : ∃ g, t.compile = .ok g)
    (hu : ∃ h, u.compile = .ok h)
    (h : ∀ s, Scene.ofView v c = .ok s →
      ∃ o p, t.Reports v c o ∧ u.Reports v c p ∧ o.status = p.status ∧ (P → o = p)) :
    TicksAlike Outcome.status v c t u ∧ (P → TicksAlike id v c t u) := by
  cases hs : Scene.ofView v c with
  | error e =>
    obtain ⟨g, hg⟩ := ht
    obtain ⟨g', hg'⟩ := hu
    have hfault (k : Graph) : k.tick v c = .error e := Graph.tick_of_scene_eq_error hs
    refine ⟨⟨g, g', hg, hg', ?_⟩, fun _ => ⟨g, g', hg, hg', ?_⟩⟩
    all_goals rw [hfault, hfault]
  | ok s =>
    obtain ⟨_, _, ⟨d, ⟨g, hg, hd⟩, rfl⟩, ⟨e, ⟨g', hg', he⟩, rfl⟩, hstatus, heq⟩ := h s hs
    refine ⟨⟨g, g', hg, hg', ?_⟩, fun hP => ⟨g, g', hg, hg', ?_⟩⟩
    · rw [hd, he]
      exact congrArg Except.ok hstatus
    · rw [hd, he]
      exact congrArg Except.ok (heq hP)

end Laws

theorem ticksAlike_of_refactored (v : View) (c : Context) (m m' m'' : σ)
    {xs ys zs ts us : List (SyntaxTree σ)} (hnested : ∀ t ∈ xs ++ ys ++ zs, ∃ g, t.compile = .ok g)
    (hinverted : ∀ t ∈ ts, ∃ g, t.compile = .ok g) (hus : List.Forall₂ Inverts ts us) :
    TicksAlike id v c (fallback m (xs ++ fallback m' ys :: zs))
      (fallback m'' (xs ++ ys ++ zs)) ∧
    (TicksAlike Outcome.status v c (sequence m (xs ++ sequence m' ys :: zs))
        (sequence m'' (xs ++ ys ++ zs)) ∧
      (¬(ys = [] ∧ zs = []) →
        TicksAlike id v c (sequence m (xs ++ sequence m' ys :: zs))
          (sequence m'' (xs ++ ys ++ zs)))) ∧
    (TicksAlike Outcome.status v c (inverted m (sequence m' ts)) (fallback m'' us) ∧
      ((∃ t ∈ ts, ∃ d, t.Decides v c d ∧ d.status ≠ .success) →
        TicksAlike id v c (inverted m (sequence m' ts)) (fallback m'' us))) ∧
    TicksAlike Outcome.status v c (inverted m (fallback m' ts)) (sequence m'' us) ∧
      ((∃ t ∈ ts, ∃ d, t.Decides v c d ∧ d.status ≠ .failure) →
        TicksAlike id v c (inverted m (fallback m' ts)) (sequence m'' us)) := by
  have hparts := hnested
  rw [List.forall_mem_append, List.forall_mem_append] at hparts
  obtain ⟨⟨hxs, hys⟩, hzs⟩ := hparts
  have hus' := exists_compile_of_inverts hinverted hus
  refine ⟨?_, ?_, ?_, ?_⟩
  · have hinner : ∀ t ∈ xs ++ fallback m' ys :: zs, ∃ g, t.compile = .ok g := by
      rw [List.forall_mem_append, List.forall_mem_cons]
      exact ⟨hxs, exists_compile_fallback m' hys, hzs⟩
    apply And.right (ticksAlike_of_reports (P := True) (exists_compile_fallback m hinner)
      (exists_compile_fallback m'' hnested) ?_) trivial
    intro s hs
    obtain ⟨o, ho, ho'⟩ := exists_reports_fallback_nested hs m m' m'' hnested
    exact ⟨o, o, ho, ho', rfl, fun _ => rfl⟩
  · have hinner : ∀ t ∈ xs ++ sequence m' ys :: zs, ∃ g, t.compile = .ok g := by
      rw [List.forall_mem_append, List.forall_mem_cons]
      exact ⟨hxs, exists_compile_sequence m' hys, hzs⟩
    apply ticksAlike_of_reports (exists_compile_sequence m hinner)
      (exists_compile_sequence m'' hnested)
    intro s hs
    exact exists_reports_sequence_nested hs m m' m'' hnested
  · apply ticksAlike_of_reports (exists_compile_inverted m (exists_compile_sequence m' hinverted))
      (exists_compile_fallback m'' hus')
    intro s hs
    exact exists_reports_inverted_sequence hs m m' m'' hinverted hus
  · apply ticksAlike_of_reports (exists_compile_inverted m (exists_compile_fallback m' hinverted))
      (exists_compile_sequence m'' hus')
    intro s hs
    exact exists_reports_inverted_fallback hs m m' m'' hinverted hus

theorem ticksAlike_of_refactored_engage :
    let explore : SyntaxTree Nat := .action 7 ⟨"explore", []⟩
    (∀ t ∈ [engage] ++ [explore] ++ [], ∃ g, t.compile = .ok g) ∧
    List.Forall₂ Inverts [engage, explore] [inverted 8 engage, inverted 9 explore] ∧
    TicksAlike id .duel .duel (fallback 0 [engage, fallback 1 [explore]])
      (fallback 2 [engage, explore]) ∧
    TicksAlike id .duel .duel (sequence 0 [engage, sequence 1 [explore]])
      (sequence 2 [engage, explore]) ∧
    TicksAlike id .duel .duel (inverted 0 (sequence 1 [engage, explore]))
      (fallback 2 [inverted 8 engage, inverted 9 explore]) ∧
    TicksAlike id .duel .duel (inverted 0 (fallback 1 [engage, explore]))
      (sequence 2 [inverted 8 engage, inverted 9 explore]) := by
  intro explore
  have hcompile : ∀ t ∈ [engage] ++ [explore] ++ [], ∃ g, t.compile = .ok g := by
    simp only [explore, List.append_nil, List.singleton_append, List.forall_mem_cons]
    exact ⟨⟨_, rfl⟩, ⟨_, rfl⟩, List.forall_mem_nil _⟩
  have hinverts : List.Forall₂ Inverts [engage, explore] [inverted 8 engage, inverted 9 explore] :=
    .cons ⟨8, rfl⟩ (.cons ⟨9, rfl⟩ .nil)
  -- Exploring neither succeeds nor fails, so it decides both composites.
  obtain ⟨s, hs⟩ := Scene.exists_ofView Context.check_duel
  have hexplore : explore.Decides .duel .duel ((Node.leaf 0 .explore).decide s) :=
    decides_of_compileFrom hs rfl
  obtain ⟨hfallback, hsequence, hsuccess, hfailure⟩ :=
    ticksAlike_of_refactored View.duel Context.duel 0 1 2 hcompile hcompile hinverts
  refine ⟨hcompile, hinverts, hfallback, hsequence.2 ?_, hsuccess.2 ?_, hfailure.2 ?_⟩
  · rintro ⟨hys, -⟩
    cases hys
  · exact ⟨explore, by simp, _, hexplore, nofun⟩
  · exact ⟨explore, by simp, _, hexplore, nofun⟩

end SyntaxTree

end BattleTree
