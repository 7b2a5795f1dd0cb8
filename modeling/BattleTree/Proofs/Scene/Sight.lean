import BattleTree.Proofs.Observation.Acceptance
import BattleTree.Proofs.Scene.Targets

/-!
This module contains what an observer sees of a team in a view, place by place: the rows of the
living members that pass a unit filter, and of those the foes in reach. A scene lists the same rows
in the order of their places. Any context can look at an observed view, whether it accepts the view
or not.
-/

namespace BattleTree

namespace View

structure Sees (v : View) (team : Team) (unit : Option UnitType) (place : Nat) (row : Row) : Prop
    where
  place_lt : place < (v.teamRows team).size
  row_eq : v.row ((v.teamRows team).start + place) = .ok row
  alive : row.health > 0
  passes : ∀ u ∈ unit, row.types.has u = true

structure Reaches (v : View) (c : Context) (unit : Option UnitType) (slot : Nat) (row : Row) : Prop
    where
  sees : v.Sees .foe unit slot row
  near : row.distance < c.reach

theorem Sees.index_eq {v : View} {team : Team} {unit : Option UnitType} {place : Nat} {row : Row}
    (h : v.Sees team unit place row) : row.index = (v.teamRows team).start + place :=
  index_of_row h.row_eq

theorem friends_le_of_observe {c : Context} {data : Array Float32} {layout : Layout} {v : View}
    (h : c.observe data layout = .ok v) : v.friendRows.stop ≤ v.rowCount := by
  obtain ⟨hrows, -, rfl, hfriends⟩ := Context.observe_eq_ok_iff.mp h
  have hteams := c.ownTeamSize_add_foeTeamSize
  unfold friendRows rowCount
  rw [hfriends, hrows]
  unfold Context.friendRows
  dsimp only
  omega

theorem forall₂_of_rowsIn {v : View} {range : RowRange} {rows : List Row}
    (h : v.rowsIn range = .ok rows) :
    List.Forall₂ (fun i row => v.row i = .ok row) range.toList rows := by
  unfold rowsIn at h
  split at h
  · exact mapM_eq_ok_iff.mp h
  · cases h

theorem mem_of_rowsIn {v : View} {range : RowRange} {rows : List Row} {row : Row} {i : Nat}
    (h : v.rowsIn range = .ok rows) (hstart : range.start ≤ i) (hstop : i < range.stop)
    (hrow : v.row i = .ok row) : row ∈ rows := by
  obtain ⟨row', hmem, hrow'⟩ :=
    exists_of_mem_forall₂ (forall₂_of_rowsIn h).flip (RowRange.mem_toList.mpr ⟨hstart, hstop⟩)
  obtain rfl := Except.ok.inj (hrow.symm.trans hrow')
  exact hmem

theorem pairwise_index_of_rowsIn {v : View} {range : RowRange} {rows : List Row}
    (h : v.rowsIn range = .ok rows) : rows.Pairwise fun row row' => row.index < row'.index := by
  have hindices : rows.map (fun row => row.index) = range.toList := by
    have hrows := forall₂_of_rowsIn h
    clear h
    generalize range.toList = places at hrows
    induction hrows with
    | nil => rfl
    | cons hrow _ ih => rw [List.map_cons, ih, index_of_row hrow]
  rw [← List.pairwise_map (R := (· < ·)), hindices]
  exact List.pairwise_lt_range'

end View

namespace Scene

theorem exists_decode {c : Context} {data : Array Float32} {layout : Layout} {v : View}
    (h : c.observe data layout = .ok v) (c' : Context) : ∃ s, decode v c' = .ok s := by
  obtain ⟨own, hown⟩ := v.exists_own
  obtain ⟨friends, hfriends⟩ := exists_aliveIn v v.friendRows (View.friends_le_of_observe h)
  obtain ⟨foes, hfoes⟩ := exists_aliveIn v v.foeRows (Nat.le_refl v.rowCount)
  unfold decode
  rw [hown, hfriends, hfoes]
  exact ⟨_, rfl⟩

theorem mem_of_aliveIn {v : View} {range : RowRange} {rows : List Row} {row : Row} {i : Nat}
    (h : aliveIn v range = .ok rows) (hstart : range.start ≤ i) (hstop : i < range.stop)
    (hrow : v.row i = .ok row) (halive : row.isAlive = true) : row ∈ rows := by
  obtain ⟨all, hall, h⟩ := bind_eq_ok_iff.mp h
  obtain rfl := Except.ok.inj h
  exact List.mem_filter.mpr ⟨View.mem_of_rowsIn hall hstart hstop hrow, halive⟩

theorem pairwise_index_of_aliveIn {v : View} {range : RowRange} {rows : List Row}
    (h : aliveIn v range = .ok rows) :
    rows.Pairwise fun row row' => row.index < row'.index := by
  obtain ⟨all, hall, h⟩ := bind_eq_ok_iff.mp h
  obtain rfl := Except.ok.inj h
  exact (View.pairwise_index_of_rowsIn hall).filter _

section

variable {s : Scene} {v : View} {c : Context} (hs : s.Depicts v c)

include hs

theorem Depicts.mem_seen_iff {team : Team} {unit : Option UnitType} {row : Row} :
    row ∈ s.seen team unit ↔ ∃ place, v.Sees team unit place row := by
  unfold seen
  rw [List.mem_filter, Option.all_eq_true]
  constructor
  · rintro ⟨hmem, hpasses⟩
    obtain ⟨i, hstart, hstop, hrow, halive⟩ := exists_row_of_mem (hs.team_eq team) hmem
    refine ⟨i - (v.teamRows team).start, ?_, ?_, of_decide_eq_true halive, hpasses⟩
    · unfold RowRange.size
      omega
    · rwa [Nat.add_sub_cancel' hstart]
  · rintro ⟨place, hplace, hrow, halive, hpasses⟩
    refine ⟨?_, hpasses⟩
    unfold RowRange.size at hplace
    apply mem_of_aliveIn (hs.team_eq team) _ _ hrow (decide_eq_true halive)
    · omega
    · omega

theorem Depicts.mem_team_iff {team : Team} {row : Row} :
    row ∈ s.team team ↔ ∃ place, v.Sees team none place row := by
  rw [← hs.mem_seen_iff, seen_none]

theorem Depicts.exists_seen_iff {team : Team} {unit : Option UnitType} {p : Row → Prop} :
    (∃ row ∈ s.seen team unit, p row) ↔ ∃ place row, v.Sees team unit place row ∧ p row := by
  simp only [hs.mem_seen_iff]
  constructor
  · rintro ⟨row, ⟨place, hsees⟩, hp⟩
    exact ⟨place, row, hsees, hp⟩
  · rintro ⟨place, row, hsees, hp⟩
    exact ⟨row, ⟨place, hsees⟩, hp⟩

theorem Depicts.mem_inReach_iff {unit : Option UnitType} {row : Row} :
    row ∈ s.inReach .foe unit ↔ ∃ slot, v.Reaches c unit slot row := by
  unfold inReach
  rw [List.mem_filter, hs.mem_seen_iff, decide_eq_true_iff, hs.context_eq]
  constructor
  · rintro ⟨⟨slot, hsees⟩, hnear⟩
    exact ⟨slot, hsees, hnear⟩
  · rintro ⟨slot, hsees, hnear⟩
    exact ⟨⟨slot, hsees⟩, hnear⟩

theorem Depicts.pairwise_seen (team : Team) (unit : Option UnitType) :
    (s.seen team unit).Pairwise fun row row' => row.index < row'.index :=
  (pairwise_index_of_aliveIn (hs.team_eq team)).filter _

theorem Depicts.pairwise_inReach (team : Team) (unit : Option UnitType) :
    (s.inReach team unit).Pairwise fun row row' => row.index < row'.index :=
  (hs.pairwise_seen team unit).filter _

theorem Depicts.index_sub_firstFoe {unit : Option UnitType} {slot : Nat} {row : Row}
    (h : v.Reaches c unit slot row) : s.firstFoe ≤ row.index ∧ row.index - s.firstFoe = slot := by
  have hindex := h.sees.index_eq
  have hfirst := hs.firstFoe_eq
  unfold View.teamRows at hindex
  dsimp only at hindex
  omega

end

end Scene

end BattleTree
