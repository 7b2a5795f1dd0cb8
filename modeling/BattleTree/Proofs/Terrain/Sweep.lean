import BattleTree.Leaf.Evaluate
import BattleTree.Proofs.Geometry.Intersection
import BattleTree.Proofs.Observation.Decode
import BattleTree.Proofs.Terrain.Cells
import Mathlib.Data.Rat.Floor

/-!
This module contains what blocks a step in exact arithmetic: the obstructed cells from the start to
the destination, in the row of the start or in its column. The test of the step against a cell never
lets such a cell through, so it changes nothing.
-/

namespace BattleTree

theorem exists_anyFrom_uIcc {p : Int → Except Fault Bool} (h : ∀ i, ∃ b, p i = .ok b) (a b : Int) :
    ∃ found, anyFrom p (min a b) ((b - a).natAbs + 1) = .ok found ∧
      (found = true ↔ ∃ i ∈ Set.uIcc a b, p i = .ok true) := by
  obtain ⟨found, hfound, hiff⟩ := exists_anyFrom h (min a b) ((b - a).natAbs + 1)
  refine ⟨found, hfound, hiff.trans ?_⟩
  simp only [Set.mem_uIcc]
  apply exists_congr
  intro i
  rw [← and_assoc]
  apply and_congr_left'
  omega

section

variable {α : Type} [Scalar α]

def Point.cell (p : Point α) : Cell :=
  ⟨Scalar.floor p.x, Scalar.floor p.y⟩

namespace Terrain

def Candidate (move : Segment α) (c : Cell) : Prop :=
  let source := move.start.cell
  let target := move.finish.cell
  if (target.y - source.y).natAbs ≤ (target.x - source.x).natAbs then
    c.x ∈ Set.uIcc source.x target.x ∧ c.y = source.y
  else
    c.x = source.x ∧ c.y ∈ Set.uIcc source.y target.y

variable {t t' : Terrain} {move : Segment α} {c : Cell}

theorem exists_crossing_iff (t : Terrain) (move : Segment α) :
    ∃ blocked, t.crossing move = .ok blocked ∧ (blocked = true ↔
      ∃ c, Candidate move c ∧ t.isBlocked c = .ok true ∧ c.touches move = true) := by
  unfold crossing Candidate Point.cell
  dsimp only
  split
  · obtain ⟨blocked, hblocked, hiff⟩ :=
      exists_anyFrom_uIcc (fun x => t.exists_stops move ⟨x, Scalar.floor move.start.y⟩)
        (Scalar.floor move.start.x) (Scalar.floor move.finish.x)
    refine ⟨blocked, hblocked, hiff.trans ?_⟩
    simp only [stops_eq_true_iff]
    constructor
    · rintro ⟨x, hx, h⟩
      exact ⟨⟨x, _⟩, ⟨hx, rfl⟩, h⟩
    · rintro ⟨⟨x, y⟩, ⟨hx, rfl⟩, h⟩
      exact ⟨x, hx, h⟩
  · obtain ⟨blocked, hblocked, hiff⟩ :=
      exists_anyFrom_uIcc (fun y => t.exists_stops move ⟨Scalar.floor move.start.x, y⟩)
        (Scalar.floor move.start.y) (Scalar.floor move.finish.y)
    refine ⟨blocked, hblocked, hiff.trans ?_⟩
    simp only [stops_eq_true_iff]
    constructor
    · rintro ⟨y, hy, h⟩
      exact ⟨⟨_, y⟩, ⟨rfl, hy⟩, h⟩
    · rintro ⟨⟨x, y⟩, ⟨rfl, hy⟩, h⟩
      exact ⟨y, hy, h⟩

theorem crossing_eq_true_iff :
    t.crossing move = .ok true ↔
      ∃ c, Candidate move c ∧ t.isBlocked c = .ok true ∧ c.touches move = true := by
  obtain ⟨blocked, hblocked, hiff⟩ := t.exists_crossing_iff move
  rw [hblocked, Except.ok.injEq, hiff]

theorem candidate_row_iff (h : move.start.cell.y = move.finish.cell.y) :
    Candidate move c ↔
      c.x ∈ Set.uIcc move.start.cell.x move.finish.cell.x ∧ c.y = move.start.cell.y := by
  unfold Candidate
  dsimp only
  rw [if_pos (by omega)]

theorem candidate_column_iff (h : move.start.cell.x = move.finish.cell.x) :
    Candidate move c ↔
      c.x = move.start.cell.x ∧ c.y ∈ Set.uIcc move.start.cell.y move.finish.cell.y := by
  -- A step within one cell is tested against this cell, as if it were one within a row.
  unfold Candidate
  dsimp only
  split
  · have hy : move.start.cell.y = move.finish.cell.y := by omega
    rw [← h, ← hy, Set.uIcc_self, Set.uIcc_self]
    rfl
  · rfl

def Extends (t' t : Terrain) : Prop :=
  ∀ c, t.isBlocked c = .ok true → t'.isBlocked c = .ok true

theorem Extends.crossing (h : t'.Extends t) (hcrossing : t.crossing move = .ok true) :
    t'.crossing move = .ok true := by
  rw [crossing_eq_true_iff] at hcrossing ⊢
  obtain ⟨c, hc, hblocked, htouches⟩ := hcrossing
  exact ⟨c, hc, h c hblocked, htouches⟩

def obstruct (t : Terrain) (cells : List Cell) : Except Fault Terrain :=
  t.setAll (cells.map fun c => (c, true))

theorem overlay_obstruct {flag : Cell → Bool} {c : Cell} (h : flag c = true) (cells : List Cell) :
    overlay flag (cells.map fun c => (c, true)) c = true := by
  induction cells generalizing flag with
  | nil => exact h
  | cons cell cells ih =>
    rw [List.map_cons, overlay_cons]
    apply ih
    rw [h, ite_self]

theorem exists_obstruct (t : Terrain) (cells : List Cell) :
    ∃ t', t.obstruct cells = .ok t' ∧ t'.Extends t := by
  obtain ⟨flag, hflag⟩ := t.exists_flags
  obtain ⟨t', hset, hwidth, hheight, hflags⟩ := hflag.setAll (cells.map fun c => (c, true))
  refine ⟨t', hset, ?_⟩
  intro c hc
  cases hi : t.index? c with
  | some i =>
    rw [hflag.isBlocked_eq hi, Except.ok.injEq] at hc
    rw [hflags.isBlocked_eq ((index?_congr hwidth hheight c).trans hi), overlay_obstruct hc]
  | none => exact isBlocked_of_index?_eq_none ((index?_congr hwidth hheight c).trans hi)

end Terrain

end

section

variable {a b : Rat} {p : Point Rat} {s : Segment Rat} {c : Cell}

theorem Point.cell_rat (p : Point Rat) : p.cell = ⟨⌊p.x⌋, ⌊p.y⌋⟩ := rfl

theorem floor_cases {i : Int} (h : i ∈ Set.uIcc ⌊a⌋ ⌊b⌋) :
    i = ⌊a⌋ ∨ i = ⌊b⌋ ∨ (i : Rat) ∈ Set.uIcc a b := by
  rcases Set.mem_uIcc.mp h with ⟨ha, hb⟩ | ⟨hb, ha⟩
  · rcases ha.eq_or_lt with heq | hlt
    · exact .inl heq.symm
    · exact .inr (.inr (Set.mem_uIcc.mpr (.inl ⟨(Int.floor_lt.mp hlt).le, Int.le_floor.mp hb⟩)))
  · rcases hb.eq_or_lt with heq | hlt
    · exact .inr (.inl heq.symm)
    · exact .inr (.inr (Set.mem_uIcc.mpr (.inr ⟨(Int.floor_lt.mp hlt).le, Int.le_floor.mp ha⟩)))

theorem floor_side {i : Int} (h : i = ⌊a⌋) : (i : Rat) ≤ a ∧ a ≤ i + 1 := by
  rw [h]
  exact ⟨Int.floor_le a, (Int.lt_floor_add_one a).le⟩

theorem Segment.has_of_row {x y : Rat} (hstart : s.start.y = y) (hfinish : s.finish.y = y)
    (hx : x ∈ Set.uIcc s.start.x s.finish.x) : s.Has ⟨x, y⟩ := by
  rw [has_iff, Point.cross_rat, Point.within_iff, hstart, hfinish, Set.uIcc_self]
  exact ⟨by ring, hx, rfl⟩

theorem Segment.has_of_column {x y : Rat} (hstart : s.start.x = x) (hfinish : s.finish.x = x)
    (hy : y ∈ Set.uIcc s.start.y s.finish.y) : s.Has ⟨x, y⟩ := by
  rw [has_iff, Point.cross_rat, Point.within_iff, hstart, hfinish, Set.uIcc_self]
  exact ⟨by ring, rfl, hy⟩

namespace Cell

theorem contains_iff : c.contains p = true ↔ c = p.cell := by
  have hx : c.x = ⌊p.x⌋ ↔ (c.x : Rat) ≤ p.x ∧ p.x < c.x + 1 := by
    rw [eq_comm, Int.floor_eq_iff]
  have hy : c.y = ⌊p.y⌋ ↔ (c.y : Rat) ≤ p.y ∧ p.y < c.y + 1 := by
    rw [eq_comm, Int.floor_eq_iff]
  rw [Point.cell_rat, Cell.mk.injEq, hx, hy]
  unfold contains
  simp only [Scalar.le_rat, Scalar.lt_rat, Scalar.ofInt_rat, Int.cast_one, Bool.and_eq_true,
    decide_eq_true_eq, and_assoc]

theorem touches_of_eq_start (h : c = s.start.cell) : c.touches s = true := by
  unfold touches
  rw [contains_iff.mpr h, Bool.true_or, Bool.true_or]

theorem touches_of_eq_finish (h : c = s.finish.cell) : c.touches s = true := by
  unfold touches
  rw [contains_iff.mpr h, Bool.or_true, Bool.true_or]

theorem touches_of_has {edge : Segment Rat} (hedge : edge ∈ c.edges) (hp : edge.Has p)
    (h : s.Has p) : c.touches s = true := by
  have hany : c.edges.any s.intersects = true := by
    rw [List.any_eq_true]
    exact ⟨edge, hedge, Segment.intersects_of_meets ⟨p, h, hp⟩⟩
  unfold touches
  rw [hany, Bool.or_true]

def leftEdge (c : Cell) : Segment Rat :=
  ⟨⟨c.x, c.y + 1⟩, ⟨c.x, c.y⟩⟩

def lowerEdge (c : Cell) : Segment Rat :=
  ⟨⟨c.x, c.y⟩, ⟨c.x + 1, c.y⟩⟩

theorem leftEdge_mem (c : Cell) : c.leftEdge ∈ c.edges := by
  simp [edges, leftEdge, Scalar.ofInt_rat]

theorem lowerEdge_mem (c : Cell) : c.lowerEdge ∈ c.edges := by
  simp [edges, lowerEdge, Scalar.ofInt_rat]

theorem touches_of_row (hs : s.start.y = s.finish.y)
    (hx : c.x ∈ Set.uIcc ⌊s.start.x⌋ ⌊s.finish.x⌋) (hy : c.y = ⌊s.start.y⌋) :
    c.touches s = true := by
  rcases floor_cases hx with hx | hx | hx
  · apply touches_of_eq_start
    exact congrArg₂ Cell.mk hx hy
  · apply touches_of_eq_finish
    rw [hs] at hy
    exact congrArg₂ Cell.mk hx hy
  · have hedge : c.leftEdge.Has ⟨c.x, s.start.y⟩ := by
      apply Segment.has_of_column rfl rfl
      exact Set.mem_uIcc_of_ge (floor_side hy).1 (floor_side hy).2
    apply touches_of_has (leftEdge_mem c) hedge
    apply Segment.has_of_row rfl hs.symm hx

theorem touches_of_column (hs : s.start.x = s.finish.x) (hx : c.x = ⌊s.start.x⌋)
    (hy : c.y ∈ Set.uIcc ⌊s.start.y⌋ ⌊s.finish.y⌋) : c.touches s = true := by
  rcases floor_cases hy with hy | hy | hy
  · apply touches_of_eq_start
    exact congrArg₂ Cell.mk hx hy
  · apply touches_of_eq_finish
    rw [hs] at hx
    exact congrArg₂ Cell.mk hx hy
  · have hedge : c.lowerEdge.Has ⟨s.start.x, c.y⟩ := by
      apply Segment.has_of_row rfl rfl
      exact Set.mem_uIcc_of_le (floor_side hx).1 (floor_side hx).2
    apply touches_of_has (lowerEdge_mem c) hedge
    apply Segment.has_of_column rfl hs.symm hy

end Cell

end

structure Walk (α : Type) where
  terrain : Terrain
  mapSize : Point α
  position : Point α
  step : α

namespace Walk

section

variable {α : Type} [Scalar α]

def source (w : Walk α) : Point α :=
  ⟨w.position.x * w.mapSize.x, w.position.y * w.mapSize.y⟩

def path (w : Walk α) (heading : Heading) : Segment α :=
  Terrain.stride w.source heading w.step

def blocks (w : Walk α) (heading : Heading) : Except Fault Bool :=
  w.terrain.blocks w.source heading w.step

def move (w : Walk α) (heading : Heading) : Except Fault Outcome := do
  return { status := .ofBool !(← w.blocks heading), action := heading.action }

def obstacle (w : Walk α) (heading : Heading) : Except Fault Outcome := do
  return .ofCondition (← w.blocks heading)

theorem blocks_eq_crossing (w : Walk α) (heading : Heading) :
    w.blocks heading = w.terrain.crossing (w.path heading) := by
  rfl

theorem exists_move (w : Walk α) (heading : Heading) :
    ∃ outcome, w.move heading = .ok outcome ∧
      (outcome.status = .failure ↔ w.blocks heading = .ok true) := by
  obtain ⟨blocked, h⟩ := w.terrain.exists_crossing (w.path heading)
  unfold move
  rw [blocks_eq_crossing, h]
  refine ⟨_, rfl, ?_⟩
  rw [Status.ofBool_eq_failure_iff, Bool.not_eq_false', Except.ok.injEq]

theorem exists_obstacle (w : Walk α) (heading : Heading) :
    ∃ outcome, w.obstacle heading = .ok outcome ∧
      (outcome.status = .success ↔ w.blocks heading = .ok true) := by
  obtain ⟨blocked, h⟩ := w.terrain.exists_crossing (w.path heading)
  unfold obstacle
  rw [blocks_eq_crossing, h]
  refine ⟨_, rfl, ?_⟩
  unfold Outcome.ofCondition
  rw [Status.ofBool_eq_success_iff, Except.ok.injEq]

theorem exists_move_of_extends {w : Walk α} {heading : Heading} {t : Terrain}
    (ht : t.Extends w.terrain) {outcome : Outcome} (h : w.move heading = .ok outcome)
    (hstatus : outcome.status = .failure) :
    ∃ outcome', { w with terrain := t }.move heading = .ok outcome' ∧
      outcome'.status = .failure := by
  obtain ⟨outcome₁, h₁, hiff₁⟩ := w.exists_move heading
  obtain rfl := Except.ok.inj (h.symm.trans h₁)
  obtain ⟨outcome', h', hiff'⟩ := exists_move { w with terrain := t } heading
  refine ⟨outcome', h', hiff'.mpr ?_⟩
  rw [hiff₁, blocks_eq_crossing] at hstatus
  rw [blocks_eq_crossing]
  exact ht.crossing hstatus

end

def destination (w : Walk Rat) : Heading → Point Rat
  | .north => ⟨w.source.x, w.source.y + w.step⟩
  | .east => ⟨w.source.x + w.step, w.source.y⟩
  | .south => ⟨w.source.x, w.source.y - w.step⟩
  | .west => ⟨w.source.x - w.step, w.source.y⟩

/-- The cells of the start's row, or column, from the start to the destination. -/
def Sweeps (w : Walk Rat) (heading : Heading) (c : Cell) : Prop :=
  match heading with
  | .north | .south =>
    c.x = ⌊w.source.x⌋ ∧ c.y ∈ Set.uIcc ⌊w.source.y⌋ ⌊(w.destination heading).y⌋
  | .east | .west =>
    c.x ∈ Set.uIcc ⌊w.source.x⌋ ⌊(w.destination heading).x⌋ ∧ c.y = ⌊w.source.y⌋

def Obstructed (w : Walk Rat) (heading : Heading) : Prop :=
  ∃ c, w.Sweeps heading c ∧
    (¬Terrain.OnMap w.terrain.width w.terrain.height c ∨ w.terrain.isBlocked c = .ok true)

variable {w : Walk Rat} {heading : Heading} {c : Cell}

theorem path_rat (w : Walk Rat) (heading : Heading) :
    w.path heading = ⟨w.source, w.destination heading⟩ := by
  unfold path Terrain.stride destination Heading.unit
  cases heading <;> simp [Scalar.ofInt_rat, sub_eq_add_neg]

theorem candidate_path_iff : Terrain.Candidate (w.path heading) c ↔ w.Sweeps heading c := by
  rw [path_rat]
  cases heading with
  | north => exact Terrain.candidate_column_iff rfl
  | east => exact Terrain.candidate_row_iff rfl
  | south => exact Terrain.candidate_column_iff rfl
  | west => exact Terrain.candidate_row_iff rfl

theorem Sweeps.touches (h : w.Sweeps heading c) : c.touches (w.path heading) = true := by
  rw [path_rat]
  cases heading with
  | north => exact Cell.touches_of_column rfl h.1 h.2
  | east => exact Cell.touches_of_row rfl h.1 h.2
  | south => exact Cell.touches_of_column rfl h.1 h.2
  | west => exact Cell.touches_of_row rfl h.1 h.2

theorem blocks_iff_obstructed : w.blocks heading = .ok true ↔ w.Obstructed heading := by
  rw [blocks_eq_crossing, Terrain.crossing_eq_true_iff]
  unfold Obstructed
  apply exists_congr
  intro c
  rw [candidate_path_iff]
  apply and_congr_right
  intro hc
  constructor
  · rintro ⟨hblocked, -⟩
    exact .inr hblocked
  · rintro (hc' | hblocked)
    · exact ⟨Terrain.isBlocked_of_not_onMap hc', hc.touches⟩
    · exact ⟨hblocked, hc.touches⟩

end Walk

def Context.walk (c : Context) (position : Point Float32) : Walk Float32 where
  terrain := c.env.terrain
  mapSize := c.mapSize
  position
  step := c.stepLength

theorem View.blocks_eq_walk {v : View} {position : Point Float32}
    (h : v.selfPosition = .ok position) (c : Context) (heading : Heading) :
    v.blocks c heading = (c.walk position).blocks heading := by
  unfold View.blocks
  rw [h]
  rfl

namespace Walk

theorem evaluate_eq {v : View} {position : Point Float32} (h : v.selfPosition = .ok position)
    (c : Context) (heading : Heading) :
    (Atomic.moveHeading heading).evaluate v c = (c.walk position).move heading ∧
      (Atomic.hasObstacle heading).evaluate v c = (c.walk position).obstacle heading := by
  rw [Atomic.evaluate, Atomic.evaluate, View.blocks_eq_walk h]
  exact ⟨rfl, rfl⟩

end Walk

end BattleTree
