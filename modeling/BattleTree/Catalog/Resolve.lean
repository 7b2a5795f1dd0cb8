import BattleTree.Catalog.Atomic
import BattleTree.Catalog.Transform
import BattleTree.Program.Position
import BattleTree.Program.Printer

/-!
This module contains the binding of calls to the catalog: the closed table of names, and the reading
of the arguments that each name takes.
-/

namespace BattleTree

inductive AtomicName where
  | attack
  | move
  | stand
  | explore
  | inRegion
  | inSight
  | inReach
  | isArmed
  | isDying
  | isType
  | isFlock
  | hasObstacle
  | invert
  | forceSuccess
  | forceFailure
  deriving DecidableEq, Repr

instance : Keyword AtomicName where
  all := [.attack, .move, .stand, .explore, .inRegion, .inSight, .inReach, .isArmed, .isDying,
    .isType, .isFlock, .hasObstacle, .invert, .forceSuccess, .forceFailure]
  spelling
    | .attack => "attack"
    | .move => "move"
    | .stand => "stand"
    | .explore => "explore"
    | .inRegion => "in_region"
    | .inSight => "in_sight"
    | .inReach => "in_reach"
    | .isArmed => "is_armed"
    | .isDying => "is_dying"
    | .isType => "is_type"
    | .isFlock => "is_flock"
    | .hasObstacle => "has_obstacle"
    | .invert => "invert"
    | .forceSuccess => "force_success"
    | .forceFailure => "force_failure"

inductive Resolved where
  | leaf (atomic : Atomic)
  | transform (transform : Transform)
  deriving DecidableEq, Repr

inductive Role where
  | action
  | condition
  | transform
  deriving DecidableEq, Repr

def Role.text : Role → String
  | action => "an action"
  | condition => "a condition"
  | transform => "a decorator transform"

def Resolved.role : Resolved → Role
  | leaf atomic => if atomic.isAction then .action else .condition
  | transform _ => .transform

inductive ArgumentError where
  | missing (menu : String)
  | unexpectedKeyword (menu : String) (found : Arg)
  | pastLastSlot (slot : UInt64)
  | notAFoeSlot (reference : Reference)
  | notARegion (x y : Direction)
  | notAHeading (direction : Direction)
  | superfluous (found : Arg)
  deriving DecidableEq, Repr

def ArgumentError.message : ArgumentError → String
  | missing menu => s!"missing {menu}"
  | unexpectedKeyword menu found => s!"expected {menu}, found `{found.text}`"
  | pastLastSlot slot => s!"`{Reference.text (.enemy slot)}` is past the last foe slot"
  | notAFoeSlot reference => s!"`{reference.text}` is not a foe slot"
  | notARegion x y => s!"`{Keyword.spelling x} {Keyword.spelling y}` is not a region"
  | notAHeading direction => s!"`{Keyword.spelling direction}` is not a heading"
  | superfluous found => s!"unexpected argument `{found.text}`"

inductive CompileError (σ : Type) where
  | unknownAtomic (name : String) (mark : σ)
  | invalidParameter (name : String) (reason : ArgumentError) (mark : σ)
  | wrongKind (name : String) (expected found : Role) (mark : σ)
  deriving DecidableEq, Repr

namespace CompileError

variable {σ : Type}

def mark : CompileError σ → σ
  | unknownAtomic _ m | invalidParameter _ _ m | wrongKind _ _ _ m => m

def name : CompileError σ → String
  | unknownAtomic n _ | invalidParameter n _ _ | wrongKind n _ _ _ => n

def message : CompileError Span → String
  | unknownAtomic name span => s!"{span.text}: unknown atomic `{name}`"
  | invalidParameter name reason span =>
    s!"{span.text}: invalid parameter for `{name}`: {reason.message}"
  | wrongKind name expected found span =>
    s!"{span.text}: `{name}` is {found.text}, expected {expected.text}"

end CompileError

namespace Arguments

abbrev Reader (α : Type) := StateT (List Arg) (Except ArgumentError) α

def keyword? {α : Type} [Keyword α] (arg : Arg) : Option α :=
  arg.asWord?.bind Keyword.read?

def required (α : Type) [Parameter α] : Reader α := fun args =>
  match args with
  | [] => .error (.missing (Parameter.menu α))
  | arg :: rest =>
    match keyword? arg with
    | some a => .ok (a, rest)
    | none => .error (.unexpectedKeyword (Parameter.menu α) arg)

def optional (α : Type) [Parameter α] : Reader (Option α) := fun args =>
  match args with
  | [] => .ok (none, [])
  | _ :: _ => (some <$> required α : Reader (Option α)) args

def unit : Reader (Option UnitType) := fun args =>
  if args.head?.bind Arg.asWord? = some "any" then
    .ok (none, args.tail)
  else
    optional UnitType args

def heading : Reader Heading := do
  let direction ← required Direction
  match direction.heading? with
  | some heading => return heading
  | none => throw (.notAHeading direction)

def target : Reader AttackTarget := fun args =>
  match args with
  | .ref (.enemy slot) :: rest =>
    if (Action.attack? slot.toNat).isSome then .ok (.slot slot, rest)
    else .error (.pastLastSlot slot)
  | .ref reference :: _ => .error (.notAFoeSlot reference)
  | _ => (AttackTarget.qualified <$> required Qualifier : Reader AttackTarget) args

def move : Reader Atomic := fun args =>
  match args.head?.bind keyword? with
  | some (_ : Course) =>
    (do
      let course ← required Course
      let qualifier ← required Qualifier
      let team ← required Team
      let unit ← unit
      return .moveRelative course qualifier team unit : Reader Atomic) args
  | none =>
    (do
      let direction ← required Direction
      match direction.heading? with
      | some heading => return .moveHeading heading
      | none => return .moveCenter : Reader Atomic) args

def region : Reader Region := do
  let x ← required Direction
  let y ← optional Direction
  let y := y.getD x
  match Region.ofPair? x y with
  | some region => return region
  | none => throw (.notARegion x y)

def ofName : AtomicName → Reader Resolved
  | .attack => do return .leaf (.attack (← target) (← unit))
  | .move => do return .leaf (← move)
  | .stand => do return .leaf .stand
  | .explore => do return .leaf .explore
  | .inRegion => do return .leaf (.inRegion (← region))
  | .inSight => do return .leaf (.inSight (← required Team) (← unit))
  | .inReach => do return .leaf (.inReach (← required Team) (← unit))
  | .isArmed => do return .leaf (.isArmed (← required Subject))
  | .isDying => do return .leaf (.isDying (← required Subject) (← required HealthLevel))
  | .isType => do return .leaf (.isType (← required Negation) (← required UnitType))
  | .isFlock => do return .leaf (.isFlock (← required Team) (← required Direction))
  | .hasObstacle => do return .leaf (.hasObstacle (← heading))
  | .invert => do return .transform .invert
  | .forceSuccess => do return .transform .forceSuccess
  | .forceFailure => do return .transform .forceFailure

def bind (name : AtomicName) (args : List Arg) : Except ArgumentError Resolved :=
  match (ofName name).run args with
  | .ok (resolved, []) => .ok resolved
  | .ok (_, arg :: _) => .error (.superfluous arg)
  | .error e => .error e

end Arguments

def resolve {σ : Type} (call : Call) (mark : σ) : Except (CompileError σ) Resolved :=
  match Keyword.read? call.name with
  | none => .error (.unknownAtomic call.name mark)
  | some name =>
    match Arguments.bind name call.args with
    | .ok resolved => .ok resolved
    | .error reason => .error (.invalidParameter call.name reason mark)

end BattleTree
