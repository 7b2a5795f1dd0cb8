import BattleTree.Proofs.Observation.Decode

/-!
This module contains scenes: the living agents that a view shows, with their readings. Whatever
leaves find out from a view and its context is said by the scene.
-/

namespace BattleTree

structure Scene where
  own : Reading
  friends : List Row
  foes : List Row
  firstFoe : Nat
  context : Context
  deriving DecidableEq, Repr

namespace Scene

def aliveIn (v : View) (range : RowRange) : Except Fault (List Row) := do
  let rows ← v.rowsIn range
  return rows.filter Row.isAlive

def decode (v : View) (c : Context) : Except Fault Scene := do
  let own ← v.own
  let friends ← aliveIn v v.friendRows
  let foes ← aliveIn v v.foeRows
  return { own, friends, foes, firstFoe := v.foeRows.start, context := c }

def ofView (v : View) (c : Context) : Except Fault Scene :=
  match c.check v with
  | .ok () => decode v c
  | .error violation => .error (.foreignView violation)

def team (s : Scene) : Team → List Row
  | .foe => s.foes
  | .friend => s.friends

def seen (s : Scene) (team : Team) (unit : Option UnitType) : List Row :=
  (s.team team).filter fun row => unit.all row.types.has

def inReach (s : Scene) (team : Team) (unit : Option UnitType) : List Row :=
  (s.seen team unit).filter fun row => row.distance < s.context.reach

theorem exists_aliveIn (v : View) (range : RowRange) (h : range.stop ≤ v.rowCount) :
    ∃ rows, aliveIn v range = .ok rows := by
  obtain ⟨rows, hrows⟩ := View.exists_rowsIn h
  unfold aliveIn
  rw [hrows]
  exact ⟨_, rfl⟩

theorem ofView_eq_error {v : View} {c : Context} {violation : Violation}
    (h : c.check v = .error violation) : ofView v c = .error (.foreignView violation) := by
  unfold ofView
  rw [h]

theorem exists_ofView {v : View} {c : Context} (h : c.check v = .ok ()) :
    ∃ s, ofView v c = .ok s := by
  obtain ⟨own, hown⟩ := v.exists_own
  obtain ⟨friends, hfriends⟩ := exists_aliveIn v v.friendRows (Context.friends_le_of_check h)
  obtain ⟨foes, hfoes⟩ := exists_aliveIn v v.foeRows (Nat.le_refl v.rowCount)
  unfold ofView decode
  rw [h, hown, hfriends, hfoes]
  exact ⟨_, rfl⟩

structure Depicts (s : Scene) (v : View) (c : Context) : Prop where
  own_eq : v.own = .ok s.own
  friends_eq : aliveIn v v.friendRows = .ok s.friends
  foes_eq : aliveIn v v.foeRows = .ok s.foes
  firstFoe_eq : s.firstFoe = v.foeRows.start
  context_eq : s.context = c

theorem decode_eq_ok_iff {v : View} {c : Context} {s : Scene} :
    decode v c = .ok s ↔ s.Depicts v c := by
  constructor
  · intro h
    obtain ⟨own, hown, h⟩ := bind_eq_ok_iff.mp h
    obtain ⟨friends, hfriends, h⟩ := bind_eq_ok_iff.mp h
    obtain ⟨foes, hfoes, h⟩ := bind_eq_ok_iff.mp h
    obtain rfl := Except.ok.inj h
    exact ⟨hown, hfriends, hfoes, rfl, rfl⟩
  · rintro ⟨hown, hfriends, hfoes, hfirstFoe, rfl⟩
    unfold decode
    rw [hown, hfriends, hfoes, ← hfirstFoe]
    rfl

theorem ofView_eq_ok_iff {v : View} {c : Context} {s : Scene} :
    ofView v c = .ok s ↔ c.check v = .ok () ∧ s.Depicts v c := by
  rw [← decode_eq_ok_iff]
  unfold ofView
  split
  · next hcheck => simp [hcheck]
  · next hcheck => simp [hcheck]

theorem check_of_ofView {v : View} {c : Context} {s : Scene} (h : ofView v c = .ok s) :
    c.check v = .ok () := by
  exact (ofView_eq_ok_iff.mp h).1

theorem depicts_of_ofView {v : View} {c : Context} {s : Scene} (h : ofView v c = .ok s) :
    s.Depicts v c := by
  exact (ofView_eq_ok_iff.mp h).2

theorem exists_row_of_mem {v : View} {range : RowRange} {rows : List Row} {r : Row}
    (h : aliveIn v range = .ok rows) (hr : r ∈ rows) :
    ∃ i, range.start ≤ i ∧ i < range.stop ∧ v.row i = .ok r ∧ r.isAlive = true := by
  obtain ⟨all, hall, h⟩ := bind_eq_ok_iff.mp h
  obtain rfl := Except.ok.inj h
  rw [List.mem_filter] at hr
  unfold View.rowsIn at hall
  split at hall
  · obtain ⟨i, hi, hrow⟩ := exists_of_mem_forall₂ (mapM_eq_ok_iff.mp hall) hr.1
    rw [RowRange.mem_toList] at hi
    exact ⟨i, hi.1, hi.2, hrow, hr.2⟩
  · cases hall

theorem seen_none (s : Scene) (team : Team) : s.seen team none = s.team team :=
  List.filter_eq_self.mpr fun _ _ => rfl

end Scene

def Terrain.meadow : Terrain where
  width := 32
  height := 32
  blocked := Array.replicate (32 * 32) false
  size_eq := Array.size_replicate

def View.duel : View where
  data := #[1, 0.25, 0, 0, 0, 0, 0, 1, 0, 0, 0, 0, 0, 1, 0.5, 0.5, 0, 1, 0, 0, 0, 0, 0]
  layout := .standard 1 1
  friends := 0
  layout_ok := by rfl
  size_eq := by rfl

def Context.duel : Context where
  env := .ofTerrain 1 1 .meadow
  agent := { id := 1, side := .ally, velocity := 3, sightRange := 9, attackRange := 5 }
  tick := 0
  seed := 0

theorem Context.check_duel : duel.check .duel = .ok () := by
  rfl

end BattleTree
