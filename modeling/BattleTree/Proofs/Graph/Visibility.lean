import BattleTree.Proofs.Graph.Engines

/-!
This module contains what of an observation a decision can depend on: the features of the observer
and of the living that the layout declares, and whether the others are alive.
-/

namespace BattleTree

def Row.Alike (r r' : Row) : Prop :=
  (r.isAlive = false ∧ r'.isAlive = false) ∨ r.toReading = r'.toReading

def Layout.columns (l : Layout) (width cooldownColumn : Nat) : List Nat :=
  [l.health, l.position, l.position + 1, cooldownColumn] ++
    (Keyword.all : List UnitType).map fun unit => width - UnitType.count + unit.index

namespace View

/-- Two views, of one layout or of two, in which an observer sees no difference. -/
structure Agrees (v v' : View) : Prop where
  own_eq : v.own = v'.own
  alike : ∀ i r r', i < v.rowCount → v.row i = .ok r → v'.row i = .ok r' → r.Alike r'

/-- The places of the vector that are looked at. -/
inductive Shows (v : View) : Nat → Prop where
  | own {column : Nat} : column ∈ v.layout.columns v.layout.selfWidth v.layout.selfCooldown →
      Shows v (v.data.size - v.layout.selfWidth + column)
  | health {i : Nat} : i < v.rowCount → Shows v (i * v.layout.otherWidth + v.layout.health)
  | alive {i column : Nat} {r : Row} : i < v.rowCount → v.row i = .ok r → r.isAlive = true →
      column ∈ v.layout.columns v.layout.otherWidth v.layout.otherCooldown →
      Shows v (i * v.layout.otherWidth + column)

def withData (v : View) (data : Array Float32) (h : data.size = v.layout.length) : View :=
  { v with data, size_eq := h }

theorem filter_isAlive_eq {v v' : View} (h : v.Agrees v') {is : List Nat}
    (his : ∀ i ∈ is, i < v.rowCount) {rows rows' : List Row}
    (hrows : List.Forall₂ (fun i r => v.row i = .ok r) is rows)
    (hrows' : List.Forall₂ (fun i r => v'.row i = .ok r) is rows') :
    rows.filter Row.isAlive = rows'.filter Row.isAlive := by
  induction hrows generalizing rows' with
  | nil =>
    cases hrows'
    rfl
  | @cons i r is rows hr _ ih =>
    cases hrows' with
    | @cons _ r' _ rows' hr' hrows' =>
      rw [List.forall_mem_cons] at his
      rw [List.filter_cons, List.filter_cons, ih his.2 hrows']
      rcases h.alike i r r' his.1 hr hr' with ⟨hdead, hdead'⟩ | hreading
      · rw [hdead, hdead']
        rfl
      · have heq : r = r' := by
          cases r
          cases r'
          have hindex := (index_of_row hr).trans (index_of_row hr').symm
          simp_all
        rw [heq]

end View

namespace Scene

theorem aliveIn_eq {v v' : View} (h : v.Agrees v') {range : RowRange}
    (hrange : range.stop ≤ v.rowCount) (hrange' : range.stop ≤ v'.rowCount) :
    aliveIn v range = aliveIn v' range := by
  obtain ⟨rows, hrows⟩ := View.exists_rowsIn hrange
  obtain ⟨rows', hrows'⟩ := View.exists_rowsIn hrange'
  unfold aliveIn
  rw [hrows, hrows']
  unfold View.rowsIn at hrows hrows'
  rw [if_pos hrange, mapM_eq_ok_iff] at hrows
  rw [if_pos hrange', mapM_eq_ok_iff] at hrows'
  have his : ∀ i ∈ range.toList, i < v.rowCount := by
    intro i hi
    rw [RowRange.mem_toList] at hi
    omega
  exact congrArg Except.ok (View.filter_isAlive_eq h his hrows hrows')

theorem ofView_eq {v v' : View} {c : Context} (hcheck : c.check v = .ok ())
    (hcheck' : c.check v' = .ok ()) (h : v.Agrees v') : ofView v c = ofView v' c := by
  have hfriends : v.friendRows = v'.friendRows := by
    rw [(Context.check_eq_ok_iff.mp hcheck).1, (Context.check_eq_ok_iff.mp hcheck').1]
  have hfoes : v.foeRows = v'.foeRows := by
    rw [(Context.check_eq_ok_iff.mp hcheck).2, (Context.check_eq_ok_iff.mp hcheck').2]
  have hrowCount : v.rowCount = v'.rowCount := congrArg RowRange.stop hfoes
  have hle := Context.friends_le_of_check hcheck
  have haliveFriends : aliveIn v v.friendRows = aliveIn v' v.friendRows := by
    apply aliveIn_eq h hle
    rw [← hrowCount]
    exact hle
  have haliveFoes : aliveIn v v.foeRows = aliveIn v' v.foeRows :=
    aliveIn_eq h (Nat.le_refl v.rowCount) (Nat.le_of_eq hrowCount)
  unfold ofView decode
  rw [hcheck, hcheck', h.own_eq, haliveFriends, haliveFoes, hfriends, hfoes]

end Scene

namespace View

theorem feature_extract_eq {data data' : Array Float32} {start stop column : Nat}
    (hsize : data'.size = data.size) (h : data'[start + column]? = data[start + column]?) :
    (FeatureSegment.mk (data.extract start stop)).feature column =
      (FeatureSegment.mk (data'.extract start stop)).feature column := by
  unfold FeatureSegment.feature
  rw [Array.getElem?_extract, Array.getElem?_extract, hsize, h]

theorem reading_congr {s s' : FeatureSegment} {layout : Layout} {cooldownColumn : Nat}
    (hsize : s'.features.size = s.features.size) (htypes : UnitType.count ≤ s.features.size)
    (h : ∀ column ∈ layout.columns s.features.size cooldownColumn,
      s.feature column = s'.feature column) :
    s.reading layout cooldownColumn = s'.reading layout cooldownColumn := by
  unfold Layout.columns at h
  rw [List.forall_mem_append, List.forall_mem_map] at h
  obtain ⟨hcolumns, hflags⟩ := h
  simp only [List.forall_mem_cons] at hcolumns
  obtain ⟨hhealth, hx, hy, hcooldown, -⟩ := hcolumns
  have hflag (unit : UnitType) : s.typeFlag unit = s'.typeFlag unit := by
    unfold FeatureSegment.typeFlag
    rw [hsize, Layout.typeColumn_of_le htypes, ok_bind, ok_bind]
    apply hflags
    cases unit <;> decide
  unfold FeatureSegment.reading FeatureSegment.position FeatureSegment.types
  simp only [hhealth, hx, hy, hcooldown, hflag]

theorem ownReading_withData {v : View} {data : Array Float32}
    (hsize : data.size = v.layout.length)
    (h : ∀ place, v.Shows place → data[place]? = v.data[place]?) :
    v.ownSegment.reading v.layout v.layout.selfCooldown =
      (v.withData data hsize).ownSegment.reading v.layout v.layout.selfCooldown := by
  have hdata : data.size = v.data.size := hsize.trans v.size_eq.symm
  apply reading_congr
  · rw [size_ownSegment, size_ownSegment]
    rfl
  · rw [size_ownSegment]
    exact Nat.le_trans v.usable.count_le v.usable.types_le.2
  · rw [size_ownSegment]
    intro column hcolumn
    unfold ownSegment
    dsimp only [withData]
    rw [hdata]
    exact feature_extract_eq hdata (h _ (.own hcolumn))

theorem rowReading_withData {v : View} {data : Array Float32} {i : Nat} {r : Row}
    (hsize : data.size = v.layout.length)
    (h : ∀ place, v.Shows place → data[place]? = v.data[place]?) (hi : i < v.rowCount)
    (hr : v.row i = .ok r) (halive : r.isAlive = true) :
    (v.rowSegment i).reading v.layout v.layout.otherCooldown =
      ((v.withData data hsize).rowSegment i).reading v.layout v.layout.otherCooldown := by
  apply reading_congr
  · rw [size_rowSegment hi, size_rowSegment (v := v.withData data hsize) hi]
    rfl
  · rw [size_rowSegment hi]
    exact Nat.le_trans v.usable.count_le v.usable.types_le.1
  · rw [size_rowSegment hi]
    intro column hcolumn
    exact feature_extract_eq (hsize.trans v.size_eq.symm) (h _ (.alive hi hr halive hcolumn))

theorem agrees_withData {v : View} {data : Array Float32} (hsize : data.size = v.layout.length)
    (h : ∀ place, v.Shows place → data[place]? = v.data[place]?) :
    v.Agrees (v.withData data hsize) := by
  have hdata : data.size = v.data.size := hsize.trans v.size_eq.symm
  constructor
  · rw [own_eq, own_eq]
    exact ownReading_withData hsize h
  · intro i r r' hi hr hr'
    have hreads := ((row_eq_ok_iff_reads hi).mp hr).2
    have hreads' := ((row_eq_ok_iff_reads (v := v.withData data hsize) hi).mp hr').2
    cases halive : r.isAlive with
    | true =>
      right
      have hreading := rowReading_withData hsize h hi hr halive
      rw [FeatureSegment.reading_eq_ok_iff.mpr hreads] at hreading
      have hreading' := FeatureSegment.reading_eq_ok_iff.mpr hreads'
      exact Except.ok.inj (hreading.trans hreading')
    | false =>
      left
      have hhealth : r.health = r'.health := by
        have hfeature := hreads.health_eq
        rw [rowSegment, feature_extract_eq hdata (h _ (.health hi))] at hfeature
        exact Except.ok.inj (hfeature.symm.trans hreads'.health_eq)
      refine ⟨halive, ?_⟩
      rw [← halive]
      unfold Row.isAlive
      rw [hhealth]

end View

namespace Graph

def SameTicks (g : Graph) (c : Context) (v v' : View) : Prop :=
  ∃ d : Decision, g.tick v c = .ok d ∧ g.tick v' c = .ok d ∧
    g.tickExhaustive v c = .ok d ∧ g.tickExhaustive v' c = .ok d ∧
    ∀ (σ : Type) [TraceSink σ] (sink : σ), ∃ sink',
      g.tickTraced v c sink = .ok (d, sink') ∧ g.tickTraced v' c sink = .ok (d, sink')

theorem sameTicks_of_agrees (g : Graph) {c : Context} {v v' : View}
    (hcheck : c.check v = .ok ()) (hcheck' : c.check v' = .ok ()) (h : v.Agrees v') :
    g.SameTicks c v v' := by
  obtain ⟨s, hs⟩ := Scene.exists_ofView hcheck
  have hscenes := Scene.ofView_eq hcheck hcheck' h
  have hs' := hscenes.symm.trans hs
  refine ⟨g.root.decide s, tick_of_scene hs, tick_of_scene hs', tickExhaustive_of_scene hs,
    tickExhaustive_of_scene hs', ?_⟩
  intro σ _ sink
  exact ⟨_, tickTraced_of_scene hs sink, tickTraced_of_scene hs' sink⟩

theorem sameTicks_of_unseen (g : Graph) (c : Context) :
    (∀ v v' : View, c.check v = .ok () → c.check v' = .ok () → v.Agrees v' → g.SameTicks c v v') ∧
    ∀ (v : View) (data : Array Float32) (hsize : data.size = v.layout.length),
      c.check v = .ok () → (∀ place, v.Shows place → data[place]? = v.data[place]?) →
      g.SameTicks c v (v.withData data hsize) := by
  constructor
  · intro v v' hcheck hcheck' h
    exact sameTicks_of_agrees g hcheck hcheck' h
  · intro v data hsize hcheck h
    exact sameTicks_of_agrees g hcheck hcheck (View.agrees_withData hsize h)

end Graph

def View.corpse : View where
  data := #[1, 0.25, 0, 0, 0, 0, 0, 1, 0, 0, 0, 0, 0, 0, 0.5, 0.5, 0, 0, 0, 3, 0, 1, 0, 0, 0, 0,
    1, 0.5, 0.5, 0, 1, 0, 0, 0, 0, 0]
  layout := .standard 1 2
  friends := 0
  layout_ok := by rfl
  size_eq := by rfl

def View.corpseMoved : View where
  data := #[0.25, 0, 1, 0, 9, 1, 0, 0, 0, 0, 0, 7, 7, -1, 7, 7, 7, 7, 7, 7, 7, 7,
    0.5, 0.5, 1, 0, 1, 0, 0, 0, 0, 0]
  layout := ⟨2, 11, 10, 6, 2, 0, 3, 3⟩
  friends := 0
  layout_ok := by rfl
  size_eq := by rfl

def View.corpseNoise : Array Float32 :=
  #[1, 0.25, 0, 8, 8, 8, 0, 1, 0, 0, 0, 0, 0, 0, 8, 8, 8, 8, 8, 8, 8, 8, 8, 8, 8, 8,
    1, 0.5, 0.5, 0, 1, 0, 0, 0, 0, 0]

def Context.corpse : Context :=
  { Context.duel with env := .ofTerrain 1 2 .meadow }

namespace View

theorem isAlive_corpse : (corpse.row 1).map Row.isAlive = .ok false := by
  decide +kernel

theorem corpse_agrees : corpse.Agrees corpseMoved := by
  constructor
  · decide +kernel
  · intro i r r' hi hr hr'
    obtain rfl | rfl : i = 0 ∨ i = 1 := by
      change i < 2 at hi
      omega
    · have hrow : corpse.row 0 = corpseMoved.row 0 := by decide +kernel
      rw [hr, hr'] at hrow
      rw [Except.ok.inj hrow]
      exact .inr rfl
    · have hdead := isAlive_corpse
      have hdead' : (corpseMoved.row 1).map Row.isAlive = .ok false := by decide +kernel
      rw [hr] at hdead
      rw [hr'] at hdead'
      exact .inl ⟨Except.ok.inj hdead, Except.ok.inj hdead'⟩

theorem corpse_shows {place : Nat} (h : corpse.Shows place) :
    corpseNoise[place]? = corpse.data[place]? := by
  cases h with
  | own hcolumn =>
    have hsame : ∀ column ∈ corpse.layout.columns corpse.layout.selfWidth
        corpse.layout.selfCooldown, corpseNoise[26 + column]? = corpse.data[26 + column]? := by
      decide +kernel
    exact hsame _ hcolumn
  | @health i hi =>
    have hsame : ∀ i < 2, corpseNoise[i * 13 + 0]? = corpse.data[i * 13 + 0]? := by decide +kernel
    exact hsame i hi
  | @alive i column r hi hr halive hcolumn =>
    obtain rfl | rfl : i = 0 ∨ i = 1 := by
      change i < 2 at hi
      omega
    · have hsame : ∀ column ∈ corpse.layout.columns corpse.layout.otherWidth
          corpse.layout.otherCooldown,
          corpseNoise[0 * 13 + column]? = corpse.data[0 * 13 + column]? := by
        decide +kernel
      exact hsame column hcolumn
    · have hdead := isAlive_corpse
      rw [hr] at hdead
      exact absurd (Except.ok.inj hdead) (by simp [halive])

end View

namespace Graph

theorem sameTicks_of_unseen_corpse :
    let g : Graph := ⟨.leaf 0 (.attack (.qualified .furthest) none), 1⟩
    View.corpse.Agrees .corpseMoved ∧ g.SameTicks .corpse .corpse .corpseMoved ∧
      g.SameTicks .corpse .corpse (View.corpse.withData View.corpseNoise (by rfl)) := by
  intro g
  have hcheck : Context.corpse.check .corpse = .ok () := by decide +kernel
  have hcheck' : Context.corpse.check .corpseMoved = .ok () := by decide +kernel
  have hunseen := sameTicks_of_unseen g .corpse
  refine ⟨View.corpse_agrees, ?_, ?_⟩
  · exact hunseen.1 _ _ hcheck hcheck' View.corpse_agrees
  · exact hunseen.2 _ _ _ hcheck fun _ => View.corpse_shows

end Graph

end BattleTree
