import BattleTree.Proofs.Binary32.Negation
import BattleTree.Proofs.Scene.Sight
import Mathlib.Data.List.Nodup
import Mathlib.Data.List.Perm.Subperm

/-!
This module contains how flocking and sighting go together: what is in sight can be moved to, and
flocks to just one side, if not all around. To be all around the observer takes a member in each of
four quadrants that have nothing in common.
-/

namespace BattleTree

namespace Heading

def Quadrant (p : Point Float32) : Heading → Prop
  | north => p.x.abs < p.y
  | east => p.y.abs < p.x
  | south => p.x.abs < -p.y
  | west => p.y.abs < -p.x

def direction : Heading → Direction
  | north => .north
  | east => .east
  | south => .south
  | west => .west

theorem heading?_direction (heading : Heading) : heading.direction.heading? = some heading := by
  cases heading <;> rfl

end Heading

namespace Scene

theorem strictlyInside_iff {p : Point Float32} {heading : Heading} :
    strictlyInside p heading = true ↔ heading.Quadrant p := by
  cases heading with
  | north =>
    simp only [strictlyInside, Bool.and_eq_true, decide_eq_true_iff]
    exact Binary32.abs_lt_iff.symm
  | east =>
    simp only [strictlyInside, Bool.and_eq_true, decide_eq_true_iff, Heading.Quadrant,
      Binary32.abs_lt_iff]
    exact and_congr_left fun _ => Binary32.neg_lt_iff.symm
  | south =>
    simp only [strictlyInside, Bool.and_eq_true, decide_eq_true_iff, Heading.Quadrant,
      Binary32.abs_lt_iff, Binary32.neg_neg_lt_iff]
  | west =>
    simp only [strictlyInside, Bool.and_eq_true, decide_eq_true_iff, Heading.Quadrant,
      Binary32.abs_lt_iff, Binary32.neg_neg_lt_iff]
    rw [Binary32.lt_neg_iff, and_comm]

theorem ofOffset_of_quadrant {p : Point Float32} {heading : Heading} (h : heading.Quadrant p) :
    Heading.ofOffset p.x p.y = heading := by
  rw [← strictlyInside_iff] at h
  unfold Heading.ofOffset
  cases heading with
  | north | east | south | west =>
    simp only [strictlyInside, Bool.and_eq_true, decide_eq_true_iff] at h
    obtain ⟨h₁, h₂⟩ := h
    simp [h₁, h₂, Binary32.not_lt_of_lt h₁, Binary32.not_lt_of_lt h₂]

section

variable (s : Scene) (team : Team)

theorem inSight_status_eq_success_iff (unit : Option UnitType) :
    (s.evaluate (.inSight team unit)).status = .success ↔ s.seen team unit ≠ [] := by
  change Status.ofBool _ = .success ↔ _
  rw [Status.ofBool_eq_success_iff, Bool.not_eq_true', List.isEmpty_eq_false_iff]

theorem moveRelative_status_eq_success_iff (course : Course) (qualifier : Qualifier)
    (unit : Option UnitType) :
    (s.evaluate (.moveRelative course qualifier team unit)).status = .success ↔
      s.seen team unit ≠ [] := by
  change (s.moveRelative course qualifier team unit).status = .success ↔ _
  rw [Ne, ← Qualifier.pick?_eq_none_iff (q := qualifier)]
  unfold moveRelative
  cases qualifier.pick? (s.seen team unit) <;> simp [Outcome.miss]

def side : Heading :=
  Heading.ofOffset (sumOf (s.team team)).x (sumOf (s.team team)).y

theorem isFlock_heading_status_eq_success_iff (heading : Heading) :
    (s.evaluate (.isFlock team heading.direction)).status = .success ↔
      s.team team ≠ [] ∧ s.side team = heading := by
  change Status.ofBool _ = .success ↔ _
  rw [Status.ofBool_eq_success_iff]
  unfold isFlock
  rw [heading.heading?_direction]
  dsimp only
  by_cases hempty : s.team team = []
  · rw [if_pos (List.isEmpty_iff.mpr hempty)]
    simp [hempty]
  · rw [if_neg (fun h => hempty (List.isEmpty_iff.mp h)), decide_eq_true_iff]
    exact (and_iff_right hempty).symm

theorem isFlock_center_status_eq_success_iff :
    (s.evaluate (.isFlock team .center)).status = .success ↔
      ∀ heading : Heading, ∃ row ∈ s.team team, heading.Quadrant row.position := by
  change Status.ofBool _ = .success ↔ _
  rw [Status.ofBool_eq_success_iff]
  unfold isFlock
  dsimp only [Direction.heading?]
  by_cases hempty : s.team team = []
  · rw [if_pos (List.isEmpty_iff.mpr hempty), hempty]
    simp
  · rw [if_neg (fun h => hempty (List.isEmpty_iff.mp h))]
    simp only [List.all_eq_true, List.any_eq_true, strictlyInside_iff]
    exact forall_congr' fun heading => forall_prop_of_true heading.mem_all

end

theorem Depicts.inSight_status_eq_success_iff_sees {s : Scene} {v : View} {c : Context}
    (hs : s.Depicts v c) (team : Team) (unit : Option UnitType) :
    (s.evaluate (.inSight team unit)).status = .success ↔
      ∃ place row, v.Sees team unit place row := by
  rw [inSight_status_eq_success_iff]
  constructor
  · intro hne
    obtain ⟨row, hrow⟩ := List.exists_mem_of_ne_nil _ hne
    obtain ⟨place, hsees⟩ := hs.mem_seen_iff.mp hrow
    exact ⟨place, row, hsees⟩
  · rintro ⟨place, row, hsees⟩
    exact List.ne_nil_of_mem (hs.mem_seen_iff.mpr ⟨place, hsees⟩)

theorem four_le_length {rows : List Row}
    (h : ∀ heading : Heading, ∃ row ∈ rows, heading.Quadrant row.position) : 4 ≤ rows.length := by
  choose row hrow hquadrant using h
  have hinjective : Function.Injective row := by
    intro heading heading' heq
    rw [← ofOffset_of_quadrant (hquadrant heading), heq, ofOffset_of_quadrant (hquadrant heading')]
  have hnodup : (Heading.all.map row).Nodup := List.Nodup.map hinjective (by decide)
  have hsubset : Heading.all.map row ⊆ rows := by
    intro _ hmem
    obtain ⟨heading, -, rfl⟩ := List.mem_map.mp hmem
    exact hrow heading
  exact (List.subperm_of_subset hnodup hsubset).length_le

theorem exists_flocking {c : Context} {data : Array Float32} {layout : Layout} {v : View}
    (h : c.observe data layout = .ok v) (c' : Context) (team : Team) :
    (∀ atomic : Atomic, ∃ o, atomic.evaluate v c' = .ok o) ∧
    (∀ unit : Option UnitType,
      ((Atomic.inSight team unit).Succeeds v c' ↔ ∃ place row, v.Sees team unit place row) ∧
      ∀ (course : Course) (qualifier : Qualifier),
        (Atomic.moveRelative course qualifier team unit).Succeeds v c' ↔
          (Atomic.inSight team unit).Succeeds v c') ∧
    ((Atomic.inSight team none).Succeeds v c' →
      ∃! heading : Heading, (Atomic.isFlock team heading.direction).Succeeds v c') ∧
    (¬(Atomic.inSight team none).Succeeds v c' →
      ∀ heading : Heading, ¬(Atomic.isFlock team heading.direction).Succeeds v c') ∧
    ((Atomic.isFlock team .center).Succeeds v c' ↔
      ∀ heading : Heading, ∃ place row,
        v.Sees team none place row ∧ heading.Quadrant row.position) ∧
    (∀ (heading : Heading) (place : Nat) (row : Row), v.Sees team none place row →
      heading.Quadrant row.position →
      Heading.ofOffset row.position.x row.position.y = heading) ∧
    ((Atomic.isFlock team .center).Succeeds v c' →
      ∃ rows, v.alive team none = .ok rows ∧ 4 ≤ rows.length) := by
  obtain ⟨s, hs⟩ := exists_decode h c'
  have hdepicts := decode_eq_ok_iff.mp hs
  refine ⟨fun atomic => ⟨_, hdepicts.evaluate_eq atomic⟩, ?_⟩
  simp only [hdepicts.succeeds_iff]
  refine ⟨fun unit => ⟨?_, ?_⟩, ?_, ?_, ?_, ?_, ?_⟩
  · exact hdepicts.inSight_status_eq_success_iff_sees team unit
  · intro course qualifier
    rw [moveRelative_status_eq_success_iff, inSight_status_eq_success_iff]
  · rw [inSight_status_eq_success_iff, seen_none]
    intro hteam
    refine ⟨s.side team, (s.isFlock_heading_status_eq_success_iff ..).mpr ⟨hteam, rfl⟩, ?_⟩
    intro heading hheading
    exact ((s.isFlock_heading_status_eq_success_iff ..).mp hheading).2.symm
  · rw [inSight_status_eq_success_iff, seen_none]
    intro hteam heading hheading
    exact hteam ((s.isFlock_heading_status_eq_success_iff ..).mp hheading).1
  · rw [isFlock_center_status_eq_success_iff, ← seen_none]
    simp only [hdepicts.exists_seen_iff]
  · intro heading place row _ hquadrant
    exact ofOffset_of_quadrant hquadrant
  · rw [isFlock_center_status_eq_success_iff]
    intro hcenter
    obtain ⟨rows, hrows, htell⟩ := hdepicts.exists_alive team none
    rw [seen_none] at htell
    exact ⟨rows, hrows, htell.length_eq ▸ four_le_length hcenter⟩

end Scene

def View.ring : View where
  data := #[
    1, 0, 0.5, 0, 0, 0, 0, 1, 0, 0, 0, 0, 0,
    1, 0.5, 0, 0, 0, 0, 0, 1, 0, 0, 0, 0, 0,
    1, 0, -0.5, 0, 0, 0, 0, 1, 0, 0, 0, 0, 0,
    1, -0.5, 0.25, 0, 0, 0, 0, 1, 0, 0, 0, 0, 0,
    1, 0.25, 0.25, 0, 0, 0, 0, 1, 0, 0, 0, 0, 0,
    1, 0.5, 0.5, 0, 1, 0, 0, 0, 0, 0]
  layout := .standard 1 5
  friends := 0
  layout_ok := by rfl
  size_eq := by rfl

def Context.ring : Context :=
  { Context.duel with env := .ofTerrain 1 5 .meadow }

theorem Scene.exists_flocking_ring :
    Context.ring.observe View.ring.data View.ring.layout = .ok .ring ∧
      (Atomic.isFlock .foe .center).Succeeds .ring .duel ∧
      (∀ heading : Heading, ∃ place row,
        View.ring.Sees .foe none place row ∧ heading.Quadrant row.position) ∧
      (∃ rows, View.ring.alive .foe none = .ok rows ∧ 4 ≤ rows.length) ∧
      ∃! heading : Heading, (Atomic.isFlock .foe heading.direction).Succeeds .ring .duel := by
  -- The foes are all around, yet on just one side on the whole, also for a context of one foe.
  have hobserve : Context.ring.observe View.ring.data View.ring.layout = .ok .ring :=
    Context.observe_eq_ok_iff.mpr ⟨rfl, rfl, rfl, rfl⟩
  obtain ⟨-, -, hside, -, hcenter, -, hfour⟩ := exists_flocking hobserve .duel .foe
  have haround : (Atomic.isFlock .foe .center).Succeeds .ring .duel :=
    ⟨.stand, by decide +kernel⟩
  have hsight : (Atomic.inSight .foe none).Succeeds .ring .duel := ⟨.stand, by decide +kernel⟩
  exact ⟨hobserve, haround, hcenter.mp haround, hfour haround, hside hsight⟩

end BattleTree
