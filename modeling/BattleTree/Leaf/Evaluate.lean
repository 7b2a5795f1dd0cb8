import BattleTree.Catalog.Atomic
import BattleTree.Context
import BattleTree.Leaf.Selection
import BattleTree.Outcome

/-!
This module contains the evaluation of leaves. Every leaf looks at the view for itself, and reads no
more of it than it asks for. Conditions ask for no action.
-/

namespace BattleTree

namespace View

def slotOf (v : View) (row : FeatureRow) : Except Fault Nat :=
  subtract row.index v.foeRows.start

def isInSlot (v : View) (slot : UInt64) (row : FeatureRow) : Bool :=
  v.foeRows.start ≤ row.index && row.index - v.foeRows.start = slot.toNat

def aim (v : View) (inReach : List FeatureRow) :
    AttackTarget → Except Fault (Option FeatureRow)
  | .qualified qualifier => qualifier.choose inReach
  | .slot slot => .ok (inReach.find? (v.isInSlot slot))

def strike (v : View) : Option FeatureRow → Except Fault Outcome
  | none => .ok .miss
  | some row => do
    match Action.attack? (← v.slotOf row) with
    | some action => return { status := .success, action }
    | none => return .miss

def attack (v : View) (c : Context) (target : AttackTarget) (unit : Option UnitType) :
    Except Fault Outcome := do
  if (← v.selfCooldown) > 0 then
    return .miss
  else
    let inReach ← (← v.alive .foe unit).filterM fun row => return (← row.distance) < c.reach
    v.strike (← v.aim inReach target)

def moveRelative (v : View) (course : Course) (qualifier : Qualifier) (team : Team)
    (unit : Option UnitType) : Except Fault Outcome := do
  match ← qualifier.choose (← v.alive team unit) with
  | some row =>
    let offset ← row.offset
    let heading := course.steer (Heading.ofOffset offset.x offset.y)
    return { status := .success, action := heading.action }
  | none => return .miss

def towardCenter (v : View) (c : Context) : Except Fault Heading := do
  let size := c.mapSize
  let position ← v.selfPosition
  let x := position.x * size.x - size.x / 2
  let y := position.y * size.y - size.y / 2
  if x.abs ≥ y.abs then
    return if x > 0 then .west else .east
  else
    return if y > 0 then .south else .north

def blocks (v : View) (c : Context) (heading : Heading) : Except Fault Bool := do
  let size := c.mapSize
  let position ← v.selfPosition
  c.env.terrain.blocks ⟨position.x * size.x, position.y * size.y⟩ heading c.stepLength

def isArmed (v : View) (subject : Subject) : Except Fault Bool := do
  match subject.team? with
  | none => return (← v.selfCooldown) ≤ 0
  | some team => (← v.alive team none).allM fun row => return (← row.cooldown) ≤ 0

def isDying (v : View) (subject : Subject) (level : HealthLevel) : Except Fault Bool := do
  match subject.team? with
  | none => return (← v.selfHealth) < level.threshold
  | some team =>
    let infinity := Float32.ofBits (UInt32.ofNat Binary32.infinityBits)
    let least ← (← v.alive team none).foldlM
      (fun least row => return Scalar.min least (← row.health)) infinity
    return least < level.threshold

end View

structure Quadrants where
  north : Bool
  east : Bool
  south : Bool
  west : Bool
  deriving DecidableEq, Repr

namespace Quadrants

def empty : Quadrants :=
  ⟨false, false, false, false⟩

def mark (seen : Quadrants) (p : Point Float32) : Quadrants :=
  let northeast : Bool := p.x > -p.y
  let northwest : Bool := p.x < p.y
  let southeast : Bool := p.x > p.y
  let southwest : Bool := p.x < -p.y
  { north := seen.north || (northeast && northwest)
    east := seen.east || (northeast && southeast)
    south := seen.south || (southeast && southwest)
    west := seen.west || (southwest && northwest) }

def isFull (seen : Quadrants) : Bool :=
  seen.north && seen.east && seen.south && seen.west

end Quadrants

namespace View

/--
Whether the seen members of a team flock: around the observer if some member is strictly inside each
quadrant, and to one side if the sum of their positions is in its quadrant. An empty team does not.
-/
def isFlock (v : View) (team : Team) (direction : Direction) : Except Fault Bool := do
  let rows ← v.alive team none
  if rows.isEmpty then
    return false
  match direction.heading? with
  | none =>
    let seen ← rows.foldlM (fun (seen : Quadrants) row => return seen.mark (← row.offset)) .empty
    return seen.isFull
  | some heading =>
    let sum ← rows.foldlM
      (fun (sum : Point Float32) row => do
        let offset ← row.offset
        return ⟨sum.x + offset.x, sum.y + offset.y⟩)
      ⟨0, 0⟩
    return Heading.ofOffset sum.x sum.y = heading

end View

def exploreActions : UInt32 := 5

def Atomic.evaluate (v : View) (c : Context) : Atomic → Except Fault Outcome
  | attack target unit => v.attack c target unit
  | moveRelative course qualifier team unit => v.moveRelative course qualifier team unit
  | moveCenter => return { status := .success, action := (← v.towardCenter c).action }
  | moveHeading heading =>
    return { status := .ofBool !(← v.blocks c heading), action := heading.action }
  | stand => return { status := .success, action := .stand }
  | explore => return { status := .running, action := ⟨(c.stream.nextBelow exploreActions).1⟩ }
  | inRegion region => do
    let position ← v.selfPosition
    return .ofCondition (Region.ofPosition position.x position.y = region)
  | inSight team unit => return .ofCondition !(← v.alive team unit).isEmpty
  | inReach team unit => do
    let found ← (← v.alive team unit).anyM fun row => return (← row.distance) < c.reach
    return .ofCondition found
  | isArmed subject => return .ofCondition (← v.isArmed subject)
  | isDying subject level => return .ofCondition (← v.isDying subject level)
  | isType negation unit => return .ofCondition (negation.apply (← v.selfHasType unit))
  | isFlock team direction => return .ofCondition (← v.isFlock team direction)
  | hasObstacle heading => return .ofCondition (← v.blocks c heading)

end BattleTree
