import BattleTree.Leaf.Evaluate
import BattleTree.Proofs.Scene.Selection
import BattleTree.Proofs.Terrain.Raster

/-!
This module contains what leaves come to, as a function of the scene alone, and that a leaf which is
evaluated on a view comes to just that.
-/

namespace BattleTree

def Atomic.Succeeds (atomic : Atomic) (v : View) (c : Context) : Prop :=
  ∃ action, atomic.evaluate v c = .ok ⟨.success, action⟩

namespace Scene

def ownPosition (s : Scene) : Point Float32 :=
  let size := s.context.mapSize
  ⟨s.own.position.x * size.x, s.own.position.y * size.y⟩

def blocks (s : Scene) (heading : Heading) : Bool :=
  s.context.env.terrain.blocks s.ownPosition heading s.context.stepLength = .ok true

def strike (s : Scene) (target : Option Row) : Outcome :=
  match target.bind fun row => Action.attack? (row.index - s.firstFoe) with
  | some action => { status := .success, action }
  | none => .miss

def aim? (s : Scene) (unit : Option UnitType) : AttackTarget → Option Row
  | .qualified qualifier => qualifier.pick? (s.inReach .foe unit)
  | .slot slot =>
    (s.inReach .foe unit).find? fun row =>
      s.firstFoe ≤ row.index && row.index - s.firstFoe = slot.toNat

def attack (s : Scene) (target : AttackTarget) (unit : Option UnitType) : Outcome :=
  if s.own.cooldown > 0 then .miss else s.strike (s.aim? unit target)

def moveRelative (s : Scene) (course : Course) (qualifier : Qualifier) (team : Team)
    (unit : Option UnitType) : Outcome :=
  match qualifier.pick? (s.seen team unit) with
  | some row =>
    let heading := course.steer (Heading.ofOffset row.position.x row.position.y)
    { status := .success, action := heading.action }
  | none => .miss

def towardCenter (s : Scene) : Heading :=
  let size := s.context.mapSize
  let x := s.own.position.x * size.x - size.x / 2
  let y := s.own.position.y * size.y - size.y / 2
  if x.abs ≥ y.abs then
    if x > 0 then .west else .east
  else
    if y > 0 then .south else .north

def isArmed (s : Scene) (subject : Subject) : Bool :=
  match subject.team? with
  | none => s.own.cooldown ≤ 0
  | some team => (s.team team).all fun row => row.cooldown ≤ 0

def leastHealth (rows : List Row) : Float32 :=
  rows.foldl (fun least row => Scalar.min least row.health)
    (Float32.ofBits (UInt32.ofNat Binary32.infinityBits))

def isDying (s : Scene) (subject : Subject) (level : HealthLevel) : Bool :=
  match subject.team? with
  | none => s.own.health < level.threshold
  | some team => leastHealth (s.team team) < level.threshold

def strictlyInside (p : Point Float32) : Heading → Bool
  | .north => p.x > -p.y && p.x < p.y
  | .east => p.x > -p.y && p.x > p.y
  | .south => p.x > p.y && p.x < -p.y
  | .west => p.x < -p.y && p.x < p.y

def sumOf (rows : List Row) : Point Float32 :=
  rows.foldl (fun sum row => ⟨sum.x + row.position.x, sum.y + row.position.y⟩) ⟨0, 0⟩

def isFlock (s : Scene) (team : Team) (direction : Direction) : Bool :=
  let rows := s.team team
  if rows.isEmpty then
    false
  else
    match direction.heading? with
    | none => Heading.all.all fun heading => rows.any fun row => strictlyInside row.position heading
    | some heading => Heading.ofOffset (sumOf rows).x (sumOf rows).y = heading

def evaluate (s : Scene) : Atomic → Outcome
  | .attack target unit => s.attack target unit
  | .moveRelative course qualifier team unit => s.moveRelative course qualifier team unit
  | .moveCenter => { status := .success, action := s.towardCenter.action }
  | .moveHeading heading => { status := .ofBool !s.blocks heading, action := heading.action }
  | .stand => { status := .success, action := .stand }
  | .explore => { status := .running, action := ⟨(s.context.stream.nextBelow exploreActions).1⟩ }
  | .inRegion region =>
    .ofCondition (Region.ofPosition s.own.position.x s.own.position.y = region)
  | .inSight team unit => .ofCondition !(s.seen team unit).isEmpty
  | .inReach team unit => .ofCondition !(s.inReach team unit).isEmpty
  | .isArmed subject => .ofCondition (s.isArmed subject)
  | .isDying subject level => .ofCondition (s.isDying subject level)
  | .isType negation unit => .ofCondition (negation.apply (s.own.types.has unit))
  | .isFlock team direction => .ofCondition (s.isFlock team direction)
  | .hasObstacle heading => .ofCondition (s.blocks heading)

end Scene

namespace Quadrants

def has (seen : Quadrants) : Heading → Bool
  | .north => seen.north
  | .east => seen.east
  | .south => seen.south
  | .west => seen.west

theorem has_mark (seen : Quadrants) (p : Point Float32) (heading : Heading) :
    (seen.mark p).has heading = (seen.has heading || Scene.strictlyInside p heading) := by
  cases heading <;> rfl

theorem has_foldl_mark (seen : Quadrants) (rows : List Row) (heading : Heading) :
    (rows.foldl (fun seen row => seen.mark row.position) seen).has heading =
      (seen.has heading || rows.any fun row => Scene.strictlyInside row.position heading) := by
  induction rows generalizing seen with
  | nil => simp
  | cons row rows ih => rw [List.foldl_cons, ih, has_mark, Bool.or_assoc, List.any_cons]

theorem isFull_eq (seen : Quadrants) : seen.isFull = Heading.all.all seen.has := by
  simp [isFull, Heading.all, has, Bool.and_assoc]

theorem isFull_foldl_mark (rows : List Row) :
    (rows.foldl (fun seen row => seen.mark row.position) empty).isFull =
      Heading.all.all fun heading =>
        rows.any fun row => Scene.strictlyInside row.position heading := by
  rw [isFull_eq]
  congr 1
  funext heading
  rw [has_foldl_mark]
  cases heading <;> rfl

end Quadrants

namespace Scene

theorem isEmpty_filter {p : Row → Bool} (rows : List Row) :
    (rows.filter p).isEmpty = !rows.any p := by
  rw [Bool.eq_iff_iff]
  simp [List.isEmpty_iff]

theorem mem_inReach {s : Scene} {team : Team} {unit : Option UnitType} {row : Row} :
    row ∈ s.inReach team unit ↔
      row ∈ s.team team ∧ unit.all row.types.has = true ∧ row.distance < s.context.reach := by
  unfold inReach seen
  rw [List.mem_filter, List.mem_filter, decide_eq_true_iff, and_assoc]

theorem mem_inReach_of_aim? {s : Scene} {unit : Option UnitType} {target : AttackTarget} {row : Row}
    (h : row ∈ s.aim? unit target) : row ∈ s.inReach .foe unit := by
  cases target with
  | qualified qualifier => exact Qualifier.mem_of_pick? h
  | slot slot => exact List.mem_of_find?_eq_some h

section

variable {s : Scene} {v : View} {c : Context} (hs : s.Depicts v c)

include hs

theorem Depicts.firstFoe_le {row : Row} (h : row ∈ s.foes) : s.firstFoe ≤ row.index := by
  obtain ⟨i, hstart, -, hrow, -⟩ := exists_row_of_mem hs.foes_eq h
  rw [hs.firstFoe_eq, View.index_of_row hrow]
  exact hstart

theorem Depicts.slotOf_eq {r : FeatureRow} {row : Row} (hr : r.Tells row) (h : row ∈ s.foes) :
    v.slotOf r = .ok (row.index - s.firstFoe) := by
  have hle := hs.firstFoe_le h
  unfold View.slotOf
  rw [hr.index_eq, ← hs.firstFoe_eq, subtract_of_le hle]

theorem Depicts.isInSlot_eq {r : FeatureRow} {row : Row} (hr : r.Tells row) (slot : UInt64) :
    v.isInSlot slot r =
      (s.firstFoe ≤ row.index && row.index - s.firstFoe = slot.toNat) := by
  unfold View.isInSlot
  rw [hr.index_eq, hs.firstFoe_eq]

theorem Depicts.exists_inReach (team : Team) (unit : Option UnitType) :
    ∃ rs kept, v.alive team unit = .ok rs ∧
      (rs.filterM fun r => do return decide ((← r.distance) < c.reach)) = .ok kept ∧
      List.Forall₂ FeatureRow.Tells kept (s.inReach team unit) := by
  obtain ⟨rs, hrs, htell⟩ := hs.exists_alive team unit
  obtain ⟨kept, hkept, hall⟩ := filterM_of_forall₂ htell
    (p := fun r => do return decide ((← r.distance) < c.reach))
    (q := fun row => decide (row.distance < c.reach))
    (by
      intro r row hr
      rw [hr.distance_eq]
      rfl)
  rw [← hs.context_eq] at hall
  exact ⟨rs, kept, hrs, hkept, hall⟩

theorem Depicts.exists_aim {rs : List FeatureRow} {unit : Option UnitType}
    (h : List.Forall₂ FeatureRow.Tells rs (s.inReach .foe unit)) (target : AttackTarget) :
    ∃ chosen, v.aim rs target = .ok chosen ∧
      Option.Rel FeatureRow.Tells chosen (s.aim? unit target) := by
  cases target with
  | qualified qualifier => exact qualifier.choose_of_forall₂ h
  | slot slot => exact ⟨_, rfl, find?_of_forall₂ h fun _ _ hr => hs.isInSlot_eq hr slot⟩

theorem Depicts.strike_eq {chosen : Option FeatureRow} {target : Option Row}
    (h : Option.Rel FeatureRow.Tells chosen target) (htarget : ∀ row ∈ target, row ∈ s.foes) :
    v.strike chosen = .ok (s.strike target) := by
  cases h with
  | none => rfl
  | @some r row hr =>
    unfold View.strike Scene.strike
    dsimp only
    rw [hs.slotOf_eq hr (htarget row rfl), ok_bind, Option.bind_some]
    cases Action.attack? (row.index - s.firstFoe) <;> rfl

theorem Depicts.attack_eq (target : AttackTarget) (unit : Option UnitType) :
    v.attack c target unit = .ok (s.attack target unit) := by
  obtain ⟨rs, kept, hrs, hkept, htell⟩ := hs.exists_inReach .foe unit
  obtain ⟨chosen, hchosen, hrel⟩ := hs.exists_aim htell target
  unfold View.attack Scene.attack
  rw [View.selfCooldown_of_own hs.own_eq, ok_bind]
  split
  · rfl
  · rw [hrs, ok_bind, hkept, ok_bind, hchosen, ok_bind]
    apply hs.strike_eq hrel
    intro row hrow
    exact (mem_inReach.mp (mem_inReach_of_aim? hrow)).1

theorem Depicts.moveRelative_eq (course : Course) (qualifier : Qualifier) (team : Team)
    (unit : Option UnitType) :
    v.moveRelative course qualifier team unit =
      .ok (s.moveRelative course qualifier team unit) := by
  obtain ⟨rs, hrs, htell⟩ := hs.exists_alive team unit
  obtain ⟨chosen, hchosen, hrel⟩ := qualifier.choose_of_forall₂ htell
  unfold View.moveRelative Scene.moveRelative
  rw [hrs, ok_bind, hchosen, ok_bind]
  generalize qualifier.pick? (s.seen team unit) = best at hrel
  cases hrel with
  | none => rfl
  | some hr =>
    dsimp only
    rw [hr.offset_eq]
    rfl

theorem Depicts.towardCenter_eq : v.towardCenter c = .ok s.towardCenter := by
  unfold View.towardCenter Scene.towardCenter
  rw [View.selfPosition_of_own hs.own_eq, hs.context_eq]
  dsimp only
  rw [ok_bind]
  split <;> rfl

theorem Depicts.blocks_eq (heading : Heading) : v.blocks c heading = .ok (s.blocks heading) := by
  obtain ⟨b, hb⟩ := c.env.terrain.exists_blocks s.ownPosition heading c.stepLength
  have hblocks : v.blocks c heading = .ok b := by
    unfold View.blocks
    dsimp only
    rw [View.selfPosition_of_own hs.own_eq, ok_bind, ← hb]
    unfold ownPosition
    rw [hs.context_eq]
  rw [hblocks]
  unfold Scene.blocks
  rw [hs.context_eq, hb]
  simp

theorem Depicts.isArmed_eq (subject : Subject) : v.isArmed subject = .ok (s.isArmed subject) := by
  unfold View.isArmed Scene.isArmed
  cases subject.team? with
  | none =>
    dsimp only
    rw [View.selfCooldown_of_own hs.own_eq]
    rfl
  | some team =>
    obtain ⟨rs, hrs, htell⟩ := hs.exists_alive team none
    dsimp only
    rw [hrs, ok_bind, ← seen_none]
    apply allM_of_forall₂ htell
    intro r row hr
    rw [hr.cooldown_eq]
    rfl

theorem Depicts.isDying_eq (subject : Subject) (level : HealthLevel) :
    v.isDying subject level = .ok (s.isDying subject level) := by
  unfold View.isDying Scene.isDying
  cases subject.team? with
  | none =>
    dsimp only
    rw [View.selfHealth_of_own hs.own_eq]
    rfl
  | some team =>
    obtain ⟨rs, hrs, htell⟩ := hs.exists_alive team none
    rw [seen_none] at htell
    obtain ⟨least, hleast, rfl⟩ := foldlM_of_forall₂ htell (S := Eq)
      (f := fun least r => do return Scalar.min least (← r.health))
      (g := fun least row => Scalar.min least row.health)
      (by
        rintro least _ r row rfl hr
        rw [hr.health_eq]
        exact ⟨_, rfl, rfl⟩)
      rfl
    dsimp only
    rw [hrs, ok_bind, hleast]
    rfl

theorem Depicts.isFlock_eq (team : Team) (direction : Direction) :
    v.isFlock team direction = .ok (s.isFlock team direction) := by
  obtain ⟨rs, hrs, htell⟩ := hs.exists_alive team none
  rw [seen_none] at htell
  unfold View.isFlock Scene.isFlock
  rw [hrs, ok_bind, isEmpty_of_forall₂ htell]
  dsimp only
  split
  · rfl
  · cases direction.heading? with
    | none =>
      obtain ⟨seen, hseen, rfl⟩ := foldlM_of_forall₂ htell (S := Eq)
        (f := fun (seen : Quadrants) r => do return seen.mark (← r.offset))
        (g := fun seen row => seen.mark row.position)
        (by
          rintro seen _ r row rfl hr
          rw [hr.offset_eq]
          exact ⟨_, rfl, rfl⟩)
        rfl
      dsimp only
      rw [hseen, ← Quadrants.isFull_foldl_mark]
      rfl
    | some heading =>
      obtain ⟨sum, hsum, rfl⟩ := foldlM_of_forall₂ htell (S := Eq)
        (f := fun (sum : Point Float32) r => do
          let offset ← r.offset
          return ⟨sum.x + offset.x, sum.y + offset.y⟩)
        (g := fun sum row => ⟨sum.x + row.position.x, sum.y + row.position.y⟩)
        (by
          rintro sum _ r row rfl hr
          rw [hr.offset_eq]
          exact ⟨_, rfl, rfl⟩)
        rfl
      dsimp only
      rw [hsum]
      rfl

theorem Depicts.evaluate_eq (atomic : Atomic) :
    atomic.evaluate v c = .ok (s.evaluate atomic) := by
  cases atomic with
  | attack target unit => exact hs.attack_eq target unit
  | moveRelative course qualifier team unit => exact hs.moveRelative_eq course qualifier team unit
  | moveCenter => rw [Atomic.evaluate, hs.towardCenter_eq]; rfl
  | moveHeading heading => rw [Atomic.evaluate, hs.blocks_eq]; rfl
  | stand => rfl
  | explore =>
    obtain rfl := hs.context_eq
    rfl
  | inRegion region => rw [Atomic.evaluate, View.selfPosition_of_own hs.own_eq]; rfl
  | inSight team unit =>
    obtain ⟨rs, hrs, htell⟩ := hs.exists_alive team unit
    rw [Atomic.evaluate, hrs, ok_bind, isEmpty_of_forall₂ htell]
    rfl
  | inReach team unit =>
    obtain ⟨rs, hrs, htell⟩ := hs.exists_alive team unit
    have hany := anyM_of_forall₂ htell
      (p := fun r => do return decide ((← r.distance) < c.reach))
      (q := fun row => decide (row.distance < c.reach))
      (by
        intro r row hr
        rw [hr.distance_eq]
        rfl)
    rw [Atomic.evaluate, hrs, ok_bind, hany, evaluate, inReach, isEmpty_filter, Bool.not_not,
      hs.context_eq]
    rfl
  | isArmed subject => rw [Atomic.evaluate, hs.isArmed_eq]; rfl
  | isDying subject level => rw [Atomic.evaluate, hs.isDying_eq]; rfl
  | isType negation unit => rw [Atomic.evaluate, View.selfHasType_of_own hs.own_eq]; rfl
  | isFlock team direction => rw [Atomic.evaluate, hs.isFlock_eq]; rfl
  | hasObstacle heading => rw [Atomic.evaluate, hs.blocks_eq]; rfl

theorem Depicts.evaluate_eq_ok_iff {atomic : Atomic} {outcome : Outcome} :
    atomic.evaluate v c = .ok outcome ↔ s.evaluate atomic = outcome := by
  rw [hs.evaluate_eq, Except.ok.injEq]

theorem Depicts.succeeds_iff {atomic : Atomic} :
    atomic.Succeeds v c ↔ (s.evaluate atomic).status = .success := by
  unfold Atomic.Succeeds
  simp only [hs.evaluate_eq_ok_iff]
  constructor
  · rintro ⟨action, h⟩
    rw [h]
  · intro h
    exact ⟨(s.evaluate atomic).action, by rw [← h]⟩

end

end Scene

end BattleTree
