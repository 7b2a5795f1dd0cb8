import BattleTree.Proofs.Binary32.Order
import BattleTree.Proofs.Scene.Evaluate

/-!
This module contains the leaves that do not ask for the order of the rows. They ask whether a team
has some member, or only members, with a property, in whatever way they go through the rows.
-/

namespace BattleTree

/-- Leaves other than those that choose a row, or add up the rows in their order. -/
def Atomic.OrderBlind : Atomic → Bool
  | attack .. | moveRelative .. => false
  | isFlock _ direction => direction = .center
  | _ => true

namespace Scene

theorem min_lt_iff {x y bound : Float32} : Scalar.min x y < bound ↔ x < bound ∨ y < bound := by
  have hle {a b : Float32} : Scalar.le a b = true ↔ a ≤ b := decide_eq_true_iff
  unfold Scalar.min
  split
  · next h =>
    rw [hle] at h
    exact ⟨.inl, fun hlt => hlt.elim id (Binary32.lt_of_le_of_lt h)⟩
  · next h =>
    rw [hle] at h
    split
    · next hy =>
      rw [hle] at hy
      refine ⟨.inr, fun hlt => hlt.elim ?_ id⟩
      intro hx
      have hnumbers := And.intro (Binary32.not_isNaN_of_lt hx).1 (Binary32.not_isNaN_of_le hy).1
      exact Binary32.lt_of_le_of_lt (Binary32.le_of_not_le hnumbers.1 hnumbers.2 h) hx
    · next hy =>
      rw [hle] at hy
      refine ⟨.inl, fun hlt => hlt.elim id ?_⟩
      intro hlt
      exact absurd (Binary32.le_refl (Binary32.not_isNaN_of_lt hlt).1) hy

theorem foldl_min_lt_iff {acc bound : Float32} {rows : List Row} :
    rows.foldl (fun least row => Scalar.min least row.health) acc < bound ↔
      acc < bound ∨ ∃ row ∈ rows, row.health < bound := by
  induction rows generalizing acc with
  | nil => simp
  | cons row rows ih => rw [List.foldl_cons, ih, min_lt_iff, or_assoc, List.exists_mem_cons_iff]

theorem leastHealth_lt_iff {rows : List Row} {level : HealthLevel} :
    leastHealth rows < level.threshold ↔ ∃ row ∈ rows, row.health < level.threshold := by
  have hinfinity :
      ¬Float32.ofBits (UInt32.ofNat Binary32.infinityBits) < level.threshold := by
    cases level <;> decide
  unfold leastHealth
  rw [foldl_min_lt_iff]
  simp [hinfinity]

structure SameMembers (s s' : Scene) : Prop where
  own_eq : s.own = s'.own
  context_eq : s.context = s'.context
  mem_iff : ∀ (team : Team) (reading : Reading),
    reading ∈ (s.team team).map Row.toReading ↔ reading ∈ (s'.team team).map Row.toReading

section

variable {s s' : Scene} (h : s.SameMembers s')

include h

theorem SameMembers.exists_iff (team : Team) (p : Reading → Prop) :
    (∃ row ∈ s.team team, p row.toReading) ↔ ∃ row ∈ s'.team team, p row.toReading := by
  have hmem := h.mem_iff team
  simp only [List.mem_map] at hmem
  constructor
  · rintro ⟨row, hrow, hp⟩
    obtain ⟨row', hrow', heq⟩ := (hmem row.toReading).mp ⟨row, hrow, rfl⟩
    exact ⟨row', hrow', heq ▸ hp⟩
  · rintro ⟨row, hrow, hp⟩
    obtain ⟨row', hrow', heq⟩ := (hmem row.toReading).mpr ⟨row, hrow, rfl⟩
    exact ⟨row', hrow', heq ▸ hp⟩

theorem SameMembers.forall_iff (team : Team) (p : Reading → Prop) :
    (∀ row ∈ s.team team, p row.toReading) ↔ ∀ row ∈ s'.team team, p row.toReading := by
  have hexists := h.exists_iff team fun reading => ¬p reading
  rw [← not_iff_not]
  push Not
  exact hexists

theorem SameMembers.any_eq (team : Team) (p : Reading → Bool) :
    ((s.team team).any fun row => p row.toReading) =
      (s'.team team).any fun row => p row.toReading := by
  rw [Bool.eq_iff_iff, List.any_eq_true, List.any_eq_true]
  exact h.exists_iff team fun reading => p reading = true

theorem SameMembers.all_eq (team : Team) (p : Reading → Bool) :
    ((s.team team).all fun row => p row.toReading) =
      (s'.team team).all fun row => p row.toReading := by
  rw [Bool.eq_iff_iff, List.all_eq_true, List.all_eq_true]
  exact h.forall_iff team fun reading => p reading = true

theorem SameMembers.isEmpty_filter_eq (team : Team) (p : Reading → Bool) :
    ((s.team team).filter fun row => p row.toReading).isEmpty =
      ((s'.team team).filter fun row => p row.toReading).isEmpty := by
  rw [Bool.eq_iff_iff, List.isEmpty_iff, List.isEmpty_iff, List.filter_eq_nil_iff,
    List.filter_eq_nil_iff]
  exact h.forall_iff team fun reading => ¬p reading = true

theorem SameMembers.isDying_eq (subject : Subject) (level : HealthLevel) :
    s.isDying subject level = s'.isDying subject level := by
  unfold isDying
  split
  · rw [h.own_eq]
  · next team _ =>
    rw [decide_eq_decide, leastHealth_lt_iff, leastHealth_lt_iff]
    exact h.exists_iff team fun reading => reading.health < level.threshold

theorem SameMembers.isArmed_eq (subject : Subject) : s.isArmed subject = s'.isArmed subject := by
  unfold isArmed
  split
  · rw [h.own_eq]
  · next team _ => exact h.all_eq team fun reading => reading.cooldown ≤ 0

theorem SameMembers.isFlock_center_eq (team : Team) :
    s.isFlock team .center = s'.isFlock team .center := by
  have hempty : (s.team team).isEmpty = (s'.team team).isEmpty := by
    have := h.isEmpty_filter_eq team fun _ => true
    simpa only [List.filter_true] using this
  have hany (heading : Heading) :
      ((s.team team).any fun row => strictlyInside row.position heading) =
        (s'.team team).any fun row => strictlyInside row.position heading :=
    h.any_eq team fun reading => strictlyInside reading.position heading
  unfold isFlock
  dsimp only [Direction.heading?]
  rw [hempty]
  simp only [hany]

theorem SameMembers.isEmpty_seen_eq (team : Team) (unit : Option UnitType) :
    (s.seen team unit).isEmpty = (s'.seen team unit).isEmpty :=
  h.isEmpty_filter_eq team fun reading => unit.all reading.types.has

theorem SameMembers.isEmpty_inReach_eq (team : Team) (unit : Option UnitType) :
    (s.inReach team unit).isEmpty = (s'.inReach team unit).isEmpty := by
  unfold inReach seen
  rw [List.filter_filter, List.filter_filter, ← h.context_eq]
  exact h.isEmpty_filter_eq team fun reading =>
    Binary32.distance reading.position.x reading.position.y < s.context.reach &&
      unit.all reading.types.has

theorem SameMembers.blocks_eq (heading : Heading) : s.blocks heading = s'.blocks heading := by
  unfold blocks ownPosition
  rw [h.context_eq, h.own_eq]

theorem SameMembers.evaluate_eq {atomic : Atomic} (hatomic : atomic.OrderBlind = true) :
    s.evaluate atomic = s'.evaluate atomic := by
  have hcontext := h.context_eq
  have hown := h.own_eq
  cases atomic with
  | attack | moveRelative => cases hatomic
  | stand => rfl
  | explore => simp only [evaluate, hcontext]
  | moveCenter => simp only [evaluate, towardCenter, hcontext, hown]
  | moveHeading heading | hasObstacle heading => simp only [evaluate, h.blocks_eq heading]
  | inRegion | isType => simp only [evaluate, hown]
  | inSight team unit => simp only [evaluate, h.isEmpty_seen_eq]
  | inReach team unit => simp only [evaluate, h.isEmpty_inReach_eq]
  | isArmed subject => simp only [evaluate, h.isArmed_eq]
  | isDying subject level => simp only [evaluate, h.isDying_eq]
  | isFlock team direction =>
    obtain rfl : direction = .center := of_decide_eq_true hatomic
    simp only [evaluate, h.isFlock_center_eq]

end

end Scene

end BattleTree
