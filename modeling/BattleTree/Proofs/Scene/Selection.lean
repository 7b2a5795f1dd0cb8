import BattleTree.Leaf.Selection
import BattleTree.Proofs.Scene.Basic

/-!
This module contains the choice of rows as a scene shows them: the living members of a team are the
rows that a scene lists, and the scan for the best row under a rule finds the same one in both.
-/

namespace BattleTree

namespace Qualifier

def key (q : Qualifier) (row : Row) : Float32 :=
  if q.byHealth then row.health else row.distance

def improve (q : Qualifier) (best row : Row) : Row :=
  if q.beats (q.key row) (q.key best) then row else best

def pick? (q : Qualifier) : List Row → Option Row
  | [] => none
  | row :: rows => some (rows.foldl q.improve row)

theorem pick?_eq_none_iff {q : Qualifier} {rows : List Row} : q.pick? rows = none ↔ rows = [] := by
  cases rows <;> simp [pick?]

theorem improve_eq_or (q : Qualifier) (best row : Row) :
    q.improve best row = best ∨ q.improve best row = row := by
  unfold improve
  split
  · exact .inr rfl
  · exact .inl rfl

theorem foldl_improve_mem (q : Qualifier) (best : Row) (rows : List Row) :
    rows.foldl q.improve best ∈ best :: rows := by
  induction rows generalizing best with
  | nil => simp
  | cons row rows ih =>
    rw [List.foldl_cons]
    have hmem := ih (q.improve best row)
    rcases q.improve_eq_or best row with h | h <;> rw [h] at hmem ⊢ <;>
      rcases List.mem_cons.mp hmem with h' | h' <;> simp [h']

theorem mem_of_pick? {q : Qualifier} {rows : List Row} {row : Row} (h : q.pick? rows = some row) :
    row ∈ rows := by
  cases rows with
  | nil => simp [pick?] at h
  | cons first rest =>
    obtain rfl := Option.some.inj h
    exact q.foldl_improve_mem first rest

def improve? (q : Qualifier) (best : Option Row) (row : Row) : Option Row :=
  some (best.elim row fun best => q.improve best row)

theorem foldl_improve? (q : Qualifier) (best : Row) (rows : List Row) :
    rows.foldl q.improve? (some best) = some (rows.foldl q.improve best) := by
  induction rows generalizing best with
  | nil => rfl
  | cons row rows ih => exact ih (q.improve best row)

theorem pick?_eq_foldl (q : Qualifier) (rows : List Row) :
    q.pick? rows = rows.foldl q.improve? none := by
  cases rows with
  | nil => rfl
  | cons row rows => exact (q.foldl_improve? row rows).symm

theorem keyOf_of_tells (q : Qualifier) {r : FeatureRow} {row : Row} (h : r.Tells row) :
    q.keyOf r = .ok (q.key row) := by
  unfold keyOf key
  split
  · exact h.health_eq
  · exact h.distance_eq

def Keeps (q : Qualifier) : Option (FeatureRow × Float32) → Option Row → Prop :=
  Option.Rel fun (r, key) row => r.Tells row ∧ key = q.key row

theorem Keeps.consider {q : Qualifier} {best : Option (FeatureRow × Float32)} {best' : Option Row}
    {r : FeatureRow} {row : Row} (h : q.Keeps best best') (hr : r.Tells row) :
    ∃ next, q.consider best r = .ok next ∧ q.Keeps next (q.improve? best' row) := by
  unfold Qualifier.consider
  rw [q.keyOf_of_tells hr, ok_bind]
  cases h with
  | none => exact ⟨_, rfl, .some ⟨hr, rfl⟩⟩
  | @some incumbent bestRow hbest =>
    obtain ⟨htells, hkey⟩ := hbest
    obtain ⟨incumbent, bestKey⟩ := incumbent
    refine ⟨_, rfl, ?_⟩
    unfold improve? improve
    dsimp only [Option.elim_some] at hkey ⊢
    rw [hkey]
    split
    · exact .some ⟨hr, rfl⟩
    · exact .some ⟨htells, rfl⟩

theorem choose_of_forall₂ (q : Qualifier) {rs : List FeatureRow} {rows : List Row}
    (h : List.Forall₂ FeatureRow.Tells rs rows) :
    ∃ chosen, q.choose rs = .ok chosen ∧ Option.Rel FeatureRow.Tells chosen (q.pick? rows) := by
  obtain ⟨best, hbest, hkeeps⟩ := foldlM_of_forall₂ h (S := q.Keeps)
    (fun _ _ _ _ hkeeps htells => hkeeps.consider htells) .none
  unfold choose
  rw [hbest, pick?_eq_foldl]
  refine ⟨best.map Prod.fst, rfl, ?_⟩
  generalize rows.foldl q.improve? none = best' at hkeeps
  cases hkeeps with
  | none => exact .none
  | some hkept => exact .some hkept.1

end Qualifier

namespace FeatureRow

theorem Tells.isUnit_eq {r : FeatureRow} {row : Row} (h : r.Tells row) (unit : Option UnitType) :
    r.isUnit unit = .ok (unit.all row.types.has) := by
  cases unit with
  | none => rfl
  | some unit => exact FeatureSegment.hasType_of_types h.reads.types_eq unit

end FeatureRow

namespace Scene

variable {s : Scene} {v : View} {c : Context} (hs : s.Depicts v c)

include hs

theorem Depicts.team_eq (team : Team) : aliveIn v (v.teamRows team) = .ok (s.team team) := by
  cases team with
  | foe => exact hs.foes_eq
  | friend => exact hs.friends_eq

theorem Depicts.exists_alive (team : Team) (unit : Option UnitType) :
    ∃ rs, v.alive team unit = .ok rs ∧ List.Forall₂ FeatureRow.Tells rs (s.seen team unit) := by
  obtain ⟨rows, hrows, h⟩ := bind_eq_ok_iff.mp (hs.team_eq team)
  obtain ⟨rs, hrs, htell⟩ := View.exists_featureRowsIn hrows
  obtain ⟨kept, hkept, hall⟩ := filterM_of_forall₂ htell
    (p := fun r => do if ← r.isAlive then r.isUnit unit else return false)
    (q := fun row => unit.all row.types.has && row.isAlive)
    (by
      intro r row hr
      rw [hr.isAlive_eq, ok_bind, hr.isUnit_eq]
      cases row.isAlive <;> simp [pure, Except.pure])
  refine ⟨kept, ?_, ?_⟩
  · unfold View.alive
    rw [hrs, ok_bind]
    exact hkept
  · unfold seen
    rw [← Except.ok.inj h, List.filter_filter]
    exact hall

end Scene

end BattleTree
