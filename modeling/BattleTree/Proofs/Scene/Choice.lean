import BattleTree.Proofs.Binary32.Order
import BattleTree.Proofs.Scene.Selection

/-!
This module contains what the choice of a row by a rule means: it is the first of the best rows, as
long as every row has a place in the order of the rule.
-/

namespace BattleTree

namespace Qualifier

def Better (row other : Row) : Qualifier → Prop
  | closest => row.distance < other.distance
  | furthest => other.distance < row.distance
  | strongest => other.health < row.health
  | weakest => row.health < other.health

theorem better_iff_beats {q : Qualifier} {row other : Row} :
    q.Better row other ↔ q.beats (q.key row) (q.key other) = true := by
  cases q <;> simp [Better, beats, key, byHealth, prefersLeast]

def Ranks (q : Qualifier) (row : Row) : Prop :=
  (q.key row).isNaN = false

section

variable {q : Qualifier} {row other third : Row}

theorem not_better_self (q : Qualifier) (row : Row) : ¬q.Better row row := by
  cases q with
  | closest | furthest => exact Binary32.lt_irrefl row.distance
  | strongest | weakest => exact Binary32.lt_irrefl row.health

theorem Better.not_better (h : q.Better row other) : ¬q.Better other row := by
  cases q with
  | closest | furthest | strongest | weakest => exact Binary32.not_lt_of_lt h

theorem Better.ranks (h : q.Better row other) : q.Ranks row ∧ q.Ranks other := by
  cases q with
  | closest | weakest => exact Binary32.not_isNaN_of_lt h
  | furthest | strongest => exact (Binary32.not_isNaN_of_lt h).symm

theorem Better.of_not_better (h : q.Better row other) (hthird : ¬q.Better third other)
    (hranks : q.Ranks third) : q.Better row third := by
  obtain ⟨-, hother⟩ := h.ranks
  cases q with
  | closest | weakest =>
    exact Binary32.lt_of_lt_of_le h ((Binary32.not_lt_iff_le hranks hother).mp hthird)
  | furthest | strongest =>
    exact Binary32.lt_of_le_of_lt ((Binary32.not_lt_iff_le hother hranks).mp hthird) h

end

/-- The first of the best rows of a list: all before it are worse, and none after it is better. -/
def Leads (q : Qualifier) (best : Row) (rows : List Row) : Prop :=
  ∃ before after, rows = before ++ best :: after ∧ (∀ row ∈ before, q.Better best row) ∧
    ∀ row ∈ after, ¬q.Better row best

theorem leads_singleton (q : Qualifier) (row : Row) : q.Leads row [row] :=
  ⟨[], [], rfl, List.forall_mem_nil _, List.forall_mem_nil _⟩

theorem Leads.improve {q : Qualifier} {best row : Row} {rows : List Row} (h : q.Leads best rows)
    (hranks : ∀ r ∈ rows, q.Ranks r) : q.Leads (q.improve best row) (rows ++ [row]) := by
  obtain ⟨before, after, rfl, hbefore, hafter⟩ := h
  unfold Qualifier.improve
  split
  · next hbeats =>
    have hbetter := better_iff_beats.mpr hbeats
    refine ⟨before ++ best :: after, [], rfl, ?_, List.forall_mem_nil _⟩
    intro r hr
    apply hbetter.of_not_better _ (hranks r hr)
    rcases List.mem_append.mp hr with hr | hr
    · exact (hbefore r hr).not_better
    · rcases List.mem_cons.mp hr with rfl | hr
      · apply not_better_self
      · exact hafter r hr
  · next hbeats =>
    refine ⟨before, after ++ [row], by simp, hbefore, ?_⟩
    intro r hr
    rcases List.mem_append.mp hr with hr | hr
    · exact hafter r hr
    · obtain rfl := List.mem_singleton.mp hr
      rwa [better_iff_beats]

theorem Leads.foldl_improve {q : Qualifier} {best : Row} {rows : List Row} (h : q.Leads best rows)
    (rest : List Row) (hranks : ∀ r ∈ rows ++ rest, q.Ranks r) :
    q.Leads (rest.foldl q.improve best) (rows ++ rest) := by
  induction rest generalizing best rows with
  | nil =>
    rw [List.append_nil]
    exact h
  | cons row rest ih =>
    rw [List.append_cons] at hranks ⊢
    apply ih _ hranks
    apply h.improve
    intro r hr
    exact hranks r (by simp [hr])

theorem leads_of_pick? {q : Qualifier} {best : Row} {rows : List Row}
    (hranks : ∀ r ∈ rows, q.Ranks r) (h : q.pick? rows = some best) : q.Leads best rows := by
  cases rows with
  | nil => cases h
  | cons row rows =>
    obtain rfl := Option.some.inj h
    exact (leads_singleton q row).foldl_improve rows hranks

structure Chooses (q : Qualifier) (P : Nat → Row → Prop) (place : Nat) (row : Row) : Prop where
  stands : P place row
  not_better : ∀ place' row', P place' row' → ¬q.Better row' row
  better : ∀ place' row', P place' row' → place' < place → q.Better row row'

theorem Leads.chooses {q : Qualifier} {P : Nat → Row → Prop} {start : Nat} {best : Row}
    {rows : List Row} (h : q.Leads best rows) (hmem : ∀ row, row ∈ rows ↔ ∃ place, P place row)
    (hindex : ∀ place row, P place row → row.index = start + place)
    (hsorted : rows.Pairwise fun row row' => row.index < row'.index) :
    ∃ place, q.Chooses P place best := by
  obtain ⟨before, after, rfl, hbefore, hafter⟩ := h
  obtain ⟨place, hplace⟩ := (hmem best).mp (by simp)
  have hlater := (List.pairwise_cons.mp (List.pairwise_append.mp hsorted).2.1).1
  refine ⟨place, hplace, ?_, ?_⟩
  · intro place' row' hrow'
    rcases List.mem_append.mp ((hmem row').mpr ⟨place', hrow'⟩) with hr | hr
    · exact (hbefore row' hr).not_better
    · rcases List.mem_cons.mp hr with rfl | hr
      · apply not_better_self
      · exact hafter row' hr
  · intro place' row' hrow' hlt
    have hbest := hindex place best hplace
    have hrow := hindex place' row' hrow'
    rcases List.mem_append.mp ((hmem row').mpr ⟨place', hrow'⟩) with hr | hr
    · exact hbefore row' hr
    · rcases List.mem_cons.mp hr with rfl | hr
      · omega
      · have := hlater row' hr
        omega

end Qualifier

end BattleTree
