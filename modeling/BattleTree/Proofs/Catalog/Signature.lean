import BattleTree.Catalog.Resolve
import BattleTree.Proofs.Except

/-!
This module contains the call table: which calls the catalog binds, and to what. The table says it
for whole lists of arguments. The readers take a list apart one argument at a time, and each of them
is shown to accept what its part of the table lists, so that no argument is left out or passed over.
-/

namespace BattleTree

class LawfulKeyword (α : Type) [Keyword α] : Prop where
  read?_spelling (a : α) : Keyword.read? (Keyword.spelling a) = some a

section

variable {α : Type} [Keyword α] [LawfulKeyword α]

theorem Keyword.read?_eq_some_iff {word : String} {a : α} :
    read? word = some a ↔ spelling a = word := by
  constructor
  · exact spelling_of_read?
  · rintro rfl
    exact LawfulKeyword.read?_spelling a

end

instance : LawfulKeyword AtomicName where
  read?_spelling name := by
    cases name <;> decide

instance : LawfulKeyword Qualifier where
  read?_spelling qualifier := by
    cases qualifier <;> decide

instance : LawfulKeyword UnitType where
  read?_spelling unit := by
    cases unit <;> decide

instance : LawfulKeyword Team where
  read?_spelling team := by
    cases team <;> decide

instance : LawfulKeyword Subject where
  read?_spelling subject := by
    cases subject <;> decide

instance : LawfulKeyword HealthLevel where
  read?_spelling level := by
    cases level <;> decide

instance : LawfulKeyword Negation where
  read?_spelling negation := by
    cases negation <;> decide

instance : LawfulKeyword Course where
  read?_spelling course := by
    cases course <;> decide

instance : LawfulKeyword Direction where
  read?_spelling direction := by
    cases direction <;> decide

namespace Direction

def row : Direction → Int8
  | north => 1
  | south => -1
  | east | west | center => 0

def col : Direction → Int8
  | east => 1
  | west => -1
  | north | south | center => 0

end Direction

/-- The names of the regions. A row and a column name a corner, and a direction twice its edge. -/
inductive Region.Named : Direction → Direction → Region → Prop where
  | corner {x y : Direction} : x.row ≠ 0 → y.col ≠ 0 → Named x y ⟨x.row, y.col⟩
  | edge {x : Direction} : Named x x ⟨x.row, x.col⟩

theorem Region.ofPair?_eq_some_iff {x y : Direction} {region : Region} :
    ofPair? x y = some region ↔ Named x y region := by
  constructor
  · intro h
    unfold ofPair? at h
    split at h
    all_goals cases h
    all_goals first | exact .edge | exact .corner (by decide) (by decide)
  · rintro (⟨hx, hy⟩ | _)
    · revert hx hy
      cases x <;> cases y <;> decide
    · cases x <;> decide

theorem Action.isSome_attack?_iff {slot : Nat} :
    (attack? slot).isSome ↔ slot ≤ UInt32.size - 6 := by
  unfold attack? firstAttack UInt32.size
  split
  · simp
    omega
  · simp
    omega

namespace Arg

inductive Spells : Arg → String → Prop where
  | word {text : String} : Spells (.word text) text
  | quoted {text : String} : Spells (.quoted text) text
  | self : Spells (.ref .self) "self"

def Names {α : Type} [Keyword α] (arg : Arg) (a : α) : Prop :=
  arg.Spells (Keyword.spelling a)

inductive Targets : Arg → AttackTarget → Prop where
  | qualified {arg : Arg} {qualifier : Qualifier} :
      arg.Names qualifier → arg.Targets (.qualified qualifier)
  | slot {slot : UInt64} : slot.toNat ≤ UInt32.size - 6 → (ref (.enemy slot)).Targets (.slot slot)

theorem Spells.unique {arg : Arg} {word word' : String} (h : arg.Spells word)
    (h' : arg.Spells word') : word = word' := by
  cases h <;> cases h' <;> rfl

theorem asWord?_eq_some_iff {arg : Arg} {word : String} :
    arg.asWord? = some word ↔ arg.Spells word := by
  constructor
  · intro h
    unfold asWord? at h
    split at h
    all_goals cases h
    · exact .word
    · exact .quoted
    · exact .self
  · intro h
    cases h <;> rfl

end Arg

namespace Arguments

inductive Filters : List Arg → Option UnitType → Prop where
  | missing : Filters [] none
  | any {arg : Arg} : arg.Spells "any" → Filters [arg] none
  | unit {arg : Arg} {unit : UnitType} : arg.Names unit → Filters [arg] (some unit)

inductive Moves : List Arg → Atomic → Prop where
  | relative {c q t : Arg} {args : List Arg} {course : Course} {qualifier : Qualifier} {team : Team}
      {unit : Option UnitType} :
      c.Names course → q.Names qualifier → t.Names team → Filters args unit →
      Moves (c :: q :: t :: args) (.moveRelative course qualifier team unit)
  | heading {arg : Arg} {direction : Direction} {heading : Heading} :
      arg.Names direction → direction.heading? = some heading → Moves [arg] (.moveHeading heading)
  | center {arg : Arg} : arg.Names Direction.center → Moves [arg] .moveCenter

inductive Regions : List Arg → Region → Prop where
  | single {arg : Arg} {x : Direction} {region : Region} :
      arg.Names x → Region.Named x x region → Regions [arg] region
  | pair {a b : Arg} {x y : Direction} {region : Region} :
      a.Names x → b.Names y → Region.Named x y region → Regions [a, b] region

end Arguments

open Arguments in
/-- The call table: the calls that are bound, with what they are bound to. -/
inductive Call.Takes : Call → Resolved → Prop where
  | attack {arg : Arg} {args : List Arg} {target : AttackTarget} {unit : Option UnitType} :
      arg.Targets target → Filters args unit →
      Takes ⟨"attack", arg :: args⟩ (.leaf (.attack target unit))
  | move {args : List Arg} {atomic : Atomic} :
      Moves args atomic → Takes ⟨"move", args⟩ (.leaf atomic)
  | stand : Takes ⟨"stand", []⟩ (.leaf .stand)
  | explore : Takes ⟨"explore", []⟩ (.leaf .explore)
  | inRegion {args : List Arg} {region : Region} :
      Regions args region → Takes ⟨"in_region", args⟩ (.leaf (.inRegion region))
  | inSight {arg : Arg} {args : List Arg} {team : Team} {unit : Option UnitType} :
      arg.Names team → Filters args unit →
      Takes ⟨"in_sight", arg :: args⟩ (.leaf (.inSight team unit))
  | inReach {arg : Arg} {args : List Arg} {team : Team} {unit : Option UnitType} :
      arg.Names team → Filters args unit →
      Takes ⟨"in_reach", arg :: args⟩ (.leaf (.inReach team unit))
  | isArmed {arg : Arg} {subject : Subject} :
      arg.Names subject → Takes ⟨"is_armed", [arg]⟩ (.leaf (.isArmed subject))
  | isDying {a b : Arg} {subject : Subject} {level : HealthLevel} :
      a.Names subject → b.Names level →
      Takes ⟨"is_dying", [a, b]⟩ (.leaf (.isDying subject level))
  | isType {a b : Arg} {negation : Negation} {unit : UnitType} :
      a.Names negation → b.Names unit → Takes ⟨"is_type", [a, b]⟩ (.leaf (.isType negation unit))
  | isFlock {a b : Arg} {team : Team} {direction : Direction} :
      a.Names team → b.Names direction →
      Takes ⟨"is_flock", [a, b]⟩ (.leaf (.isFlock team direction))
  | hasObstacle {arg : Arg} {direction : Direction} {heading : Heading} :
      arg.Names direction → direction.heading? = some heading →
      Takes ⟨"has_obstacle", [arg]⟩ (.leaf (.hasObstacle heading))
  | invert : Takes ⟨"invert", []⟩ (.transform .invert)
  | forceSuccess : Takes ⟨"force_success", []⟩ (.transform .forceSuccess)
  | forceFailure : Takes ⟨"force_failure", []⟩ (.transform .forceFailure)

namespace Arguments

variable {α β : Type}

def Completes (r : Reader α) (args : List Arg) (a : α) : Prop :=
  r args = .ok (a, [])

theorem completes_pure {args : List Arg} {a b : α} :
    Completes (pure a) args b ↔ args = [] ∧ a = b := by
  change (.ok (a, args) : Except ArgumentError _) = .ok (b, []) ↔ _
  rw [Except.ok.injEq, Prod.mk.injEq, and_comm]

theorem completes_bind {r : Reader α} {f : α → Reader β} {args : List Arg} {b : β} :
    Completes (r >>= f) args b ↔ ∃ a rest, r args = .ok (a, rest) ∧ Completes (f a) rest b := by
  change (r args >>= fun p => f p.1 p.2) = .ok (b, []) ↔ _
  rw [bind_eq_ok_iff, Prod.exists]
  rfl

theorem completes_bind_pure {r : Reader α} {f : α → β} {args : List Arg} {b : β} :
    Completes (r >>= fun a => pure (f a)) args b ↔ ∃ a, Completes r args a ∧ f a = b := by
  rw [completes_bind]
  constructor
  · rintro ⟨a, rest, hr, hpure⟩
    obtain ⟨rfl, hb⟩ := completes_pure.mp hpure
    exact ⟨a, hr, hb⟩
  · rintro ⟨a, hr, hb⟩
    exact ⟨a, [], hr, completes_pure.mpr ⟨rfl, hb⟩⟩

theorem keyword?_eq_some_iff [Keyword α] [LawfulKeyword α] {arg : Arg} {a : α} :
    keyword? arg = some a ↔ arg.Names a := by
  unfold keyword? Arg.Names
  rw [Option.bind_eq_some_iff, ← Arg.asWord?_eq_some_iff]
  constructor
  · rintro ⟨word, hword, hread⟩
    rw [hword, Keyword.read?_eq_some_iff.mp hread]
  · intro hword
    exact ⟨_, hword, LawfulKeyword.read?_spelling a⟩

section

variable [Parameter α] [LawfulKeyword α]

theorem required_eq_ok_iff {args rest : List Arg} {a : α} :
    required α args = .ok (a, rest) ↔ ∃ arg, args = arg :: rest ∧ arg.Names a := by
  cases args with
  | nil => simp [required]
  | cons arg args =>
    unfold required
    dsimp only
    cases h : keyword? (α := α) arg with
    | none => simp [← keyword?_eq_some_iff, h]
    | some b => simp [← keyword?_eq_some_iff, h, and_comm, eq_comm]

theorem completes_required {args : List Arg} {a : α} :
    Completes (required α) args a ↔ ∃ arg, args = [arg] ∧ arg.Names a := by
  exact required_eq_ok_iff

theorem completes_required_bind {f : α → Reader β} {args : List Arg} {b : β} :
    Completes (required α >>= f) args b ↔
      ∃ arg rest a, args = arg :: rest ∧ arg.Names a ∧ Completes (f a) rest b := by
  rw [completes_bind]
  constructor
  · rintro ⟨a, rest, hrequired, hf⟩
    obtain ⟨arg, hargs, harg⟩ := required_eq_ok_iff.mp hrequired
    exact ⟨arg, rest, a, hargs, harg, hf⟩
  · rintro ⟨arg, rest, a, hargs, harg, hf⟩
    exact ⟨a, rest, required_eq_ok_iff.mpr ⟨arg, hargs, harg⟩, hf⟩

theorem optional_eq_ok_iff {args rest : List Arg} {found : Option α} :
    optional α args = .ok (found, rest) ↔ args = [] ∧ found = none ∧ rest = [] ∨
      ∃ arg a, args = arg :: rest ∧ arg.Names a ∧ found = some a := by
  cases args with
  | nil => simp [optional, eq_comm]
  | cons arg args =>
    change (required α (arg :: args) >>= fun p => .ok (some p.1, p.2)) = .ok (found, rest) ↔ _
    rw [bind_eq_ok_iff]
    constructor
    · rintro ⟨⟨a, rest'⟩, hrequired, hfound⟩
      obtain ⟨arg', hargs, harg⟩ := required_eq_ok_iff.mp hrequired
      cases hfound
      exact .inr ⟨arg', a, hargs, harg, rfl⟩
    · rintro (⟨hargs, -⟩ | ⟨arg', a, hargs, harg, rfl⟩)
      · cases hargs
      · exact ⟨(a, rest), required_eq_ok_iff.mpr ⟨arg', hargs, harg⟩, rfl⟩

end

theorem completes_unit {args : List Arg} {found : Option UnitType} :
    Completes unit args found ↔ Filters args found := by
  unfold Completes unit
  split
  · next hany =>
    cases args with
    | nil => cases hany
    | cons arg args =>
      have hspells : arg.Spells "any" := Arg.asWord?_eq_some_iff.mp hany
      constructor
      · intro h
        cases h
        exact .any hspells
      · intro h
        cases h with
        | any => rfl
        | @unit _ unit harg =>
          -- No unit type is called `any`.
          have hspelling := harg.unique hspells
          cases unit <;> simp [Keyword.spelling] at hspelling
  · next hany =>
    rw [optional_eq_ok_iff]
    constructor
    · rintro (⟨rfl, rfl, -⟩ | ⟨arg, unit, rfl, harg, rfl⟩)
      · exact .missing
      · exact .unit harg
    · intro h
      cases h with
      | missing => exact .inl ⟨rfl, rfl, rfl⟩
      | any harg => exact absurd (Arg.asWord?_eq_some_iff.mpr harg) hany
      | unit harg => exact .inr ⟨_, _, rfl, harg, rfl⟩

theorem target_eq_ok_iff {args rest : List Arg} {found : AttackTarget} :
    target args = .ok (found, rest) ↔ ∃ arg, args = arg :: rest ∧ arg.Targets found := by
  constructor
  · intro h
    unfold target at h
    split at h
    · next slot rest =>
      split at h
      · next hslot =>
        cases h
        exact ⟨_, rfl, .slot (Action.isSome_attack?_iff.mp hslot)⟩
      · cases h
    · cases h
    · obtain ⟨⟨qualifier, rest'⟩, hrequired, hfound⟩ := bind_eq_ok_iff.mp h
      obtain ⟨arg, rfl, harg⟩ := required_eq_ok_iff.mp hrequired
      cases hfound
      exact ⟨arg, rfl, .qualified harg⟩
  · rintro ⟨arg, rfl, htargets⟩
    cases htargets with
    | @qualified _ qualifier harg =>
      have hrequired : required Qualifier (arg :: rest) = .ok (qualifier, rest) :=
        required_eq_ok_iff.mpr ⟨arg, rfl, harg⟩
      cases arg with
      | word text | quoted text => exact bind_eq_ok_iff.mpr ⟨_, hrequired, rfl⟩
      | ref reference =>
        cases reference with
        | self =>
          -- No qualifier is called `self`.
          have hspelling := harg.unique .self
          cases qualifier <;> simp [Keyword.spelling] at hspelling
        | enemy slot | friend slot => cases harg
    | slot hslot =>
      unfold target
      dsimp only
      rw [if_pos (Action.isSome_attack?_iff.mpr hslot)]

theorem completes_heading {args : List Arg} {found : Heading} :
    Completes heading args found ↔ ∃ arg, ∃ direction : Direction, args = [arg] ∧
      arg.Names direction ∧ direction.heading? = some found := by
  unfold heading
  rw [completes_required_bind]
  constructor
  · rintro ⟨arg, rest, direction, rfl, harg, h⟩
    split at h
    · next hheading =>
      obtain ⟨rfl, rfl⟩ := completes_pure.mp h
      exact ⟨arg, direction, rfl, harg, hheading⟩
    · cases h
  · rintro ⟨arg, direction, rfl, harg, hheading⟩
    refine ⟨arg, [], direction, rfl, harg, ?_⟩
    rw [hheading]
    exact completes_pure.mpr ⟨rfl, rfl⟩

theorem keyword?_course_eq_none {arg : Arg} {direction : Direction} (h : arg.Names direction) :
    (keyword? arg : Option Course) = none := by
  apply Option.eq_none_iff_forall_ne_some.mpr
  intro course hcourse
  have hspelling := (keyword?_eq_some_iff.mp hcourse).unique h
  cases course <;> cases direction <;> simp [Keyword.spelling] at hspelling

theorem completes_move {args : List Arg} {atomic : Atomic} :
    Completes move args atomic ↔ Moves args atomic := by
  constructor
  · intro h
    unfold Completes move at h
    split at h
    · obtain ⟨c, args, course, rfl, hc, h⟩ := completes_required_bind.mp h
      obtain ⟨q, args, qualifier, rfl, hq, h⟩ := completes_required_bind.mp h
      obtain ⟨t, args, team, rfl, ht, h⟩ := completes_required_bind.mp h
      obtain ⟨unit, hunit, rfl⟩ := completes_bind_pure.mp h
      exact .relative hc hq ht (completes_unit.mp hunit)
    · obtain ⟨arg, args, direction, rfl, harg, h⟩ := completes_required_bind.mp h
      cases direction
      case center =>
        obtain ⟨rfl, rfl⟩ := completes_pure.mp h
        exact .center harg
      all_goals
        obtain ⟨rfl, rfl⟩ := completes_pure.mp h
        exact .heading harg rfl
  · intro h
    unfold Completes move
    cases h with
    | relative hc hq ht hunit =>
      rw [List.head?_cons, Option.bind_some, keyword?_eq_some_iff.mpr hc]
      apply completes_required_bind.mpr ⟨_, _, _, rfl, hc, ?_⟩
      apply completes_required_bind.mpr ⟨_, _, _, rfl, hq, ?_⟩
      apply completes_required_bind.mpr ⟨_, _, _, rfl, ht, ?_⟩
      exact completes_bind_pure.mpr ⟨_, completes_unit.mpr hunit, rfl⟩
    | heading harg hheading =>
      rw [List.head?_cons, Option.bind_some, keyword?_course_eq_none harg]
      apply completes_required_bind.mpr ⟨_, _, _, rfl, harg, ?_⟩
      rw [hheading]
      exact completes_pure.mpr ⟨rfl, rfl⟩
    | center harg =>
      rw [List.head?_cons, Option.bind_some, keyword?_course_eq_none harg]
      apply completes_required_bind.mpr ⟨_, _, _, rfl, harg, ?_⟩
      exact completes_pure.mpr ⟨rfl, rfl⟩

theorem completes_region {args : List Arg} {found : Region} :
    Completes region args found ↔ Regions args found := by
  unfold region
  rw [completes_required_bind]
  constructor
  · rintro ⟨a, rest, x, rfl, ha, h⟩
    obtain ⟨y, rest', hoptional, h⟩ := completes_bind.mp h
    dsimp only at h
    split at h
    · next hregion =>
      obtain ⟨rfl, rfl⟩ := completes_pure.mp h
      have hnamed := Region.ofPair?_eq_some_iff.mp hregion
      rcases optional_eq_ok_iff.mp hoptional with ⟨rfl, rfl, -⟩ | ⟨b, y, rfl, hb, rfl⟩
      · exact .single ha hnamed
      · exact .pair ha hb hnamed
    · cases h
  · intro h
    cases h with
    | single ha hnamed =>
      refine ⟨_, [], _, rfl, ha, completes_bind.mpr ⟨none, [], rfl, ?_⟩⟩
      dsimp only [Option.getD]
      rw [Region.ofPair?_eq_some_iff.mpr hnamed]
      exact completes_pure.mpr ⟨rfl, rfl⟩
    | @pair a b x y _ ha hb hnamed =>
      refine ⟨_, _, _, rfl, ha, completes_bind.mpr ⟨some y, [], ?_, ?_⟩⟩
      · exact optional_eq_ok_iff.mpr (.inr ⟨b, y, rfl, hb, rfl⟩)
      · dsimp only [Option.getD]
        rw [Region.ofPair?_eq_some_iff.mpr hnamed]
        exact completes_pure.mpr ⟨rfl, rfl⟩

theorem takes_of_completes {name : AtomicName} {args : List Arg} {found : Resolved}
    (h : Completes (ofName name) args found) : Call.Takes ⟨Keyword.spelling name, args⟩ found := by
  cases name with
  | attack =>
    obtain ⟨target, rest, htarget, hrest⟩ := completes_bind.mp h
    obtain ⟨arg, rfl, harg⟩ := target_eq_ok_iff.mp htarget
    obtain ⟨unit, hunit, rfl⟩ := completes_bind_pure.mp hrest
    exact .attack harg (completes_unit.mp hunit)
  | move =>
    obtain ⟨atomic, hatomic, rfl⟩ := completes_bind_pure.mp h
    exact .move (completes_move.mp hatomic)
  | stand =>
    obtain ⟨rfl, rfl⟩ := completes_pure.mp h
    exact .stand
  | explore =>
    obtain ⟨rfl, rfl⟩ := completes_pure.mp h
    exact .explore
  | inRegion =>
    obtain ⟨region, hregion, rfl⟩ := completes_bind_pure.mp h
    exact .inRegion (completes_region.mp hregion)
  | inSight =>
    obtain ⟨arg, rest, team, rfl, harg, h⟩ := completes_required_bind.mp h
    obtain ⟨unit, hunit, rfl⟩ := completes_bind_pure.mp h
    exact .inSight harg (completes_unit.mp hunit)
  | inReach =>
    obtain ⟨arg, rest, team, rfl, harg, h⟩ := completes_required_bind.mp h
    obtain ⟨unit, hunit, rfl⟩ := completes_bind_pure.mp h
    exact .inReach harg (completes_unit.mp hunit)
  | isArmed =>
    obtain ⟨subject, hsubject, rfl⟩ := completes_bind_pure.mp h
    obtain ⟨arg, rfl, harg⟩ := completes_required.mp hsubject
    exact .isArmed harg
  | isDying =>
    obtain ⟨a, rest, subject, rfl, ha, h⟩ := completes_required_bind.mp h
    obtain ⟨level, hlevel, rfl⟩ := completes_bind_pure.mp h
    obtain ⟨b, rfl, hb⟩ := completes_required.mp hlevel
    exact .isDying ha hb
  | isType =>
    obtain ⟨a, rest, negation, rfl, ha, h⟩ := completes_required_bind.mp h
    obtain ⟨unit, hunit, rfl⟩ := completes_bind_pure.mp h
    obtain ⟨b, rfl, hb⟩ := completes_required.mp hunit
    exact .isType ha hb
  | isFlock =>
    obtain ⟨a, rest, team, rfl, ha, h⟩ := completes_required_bind.mp h
    obtain ⟨direction, hdirection, rfl⟩ := completes_bind_pure.mp h
    obtain ⟨b, rfl, hb⟩ := completes_required.mp hdirection
    exact .isFlock ha hb
  | hasObstacle =>
    obtain ⟨heading, hread, rfl⟩ := completes_bind_pure.mp h
    obtain ⟨arg, direction, rfl, harg, hheading⟩ := completes_heading.mp hread
    exact .hasObstacle harg hheading
  | invert =>
    obtain ⟨rfl, rfl⟩ := completes_pure.mp h
    exact .invert
  | forceSuccess =>
    obtain ⟨rfl, rfl⟩ := completes_pure.mp h
    exact .forceSuccess
  | forceFailure =>
    obtain ⟨rfl, rfl⟩ := completes_pure.mp h
    exact .forceFailure

theorem exists_completes_of_takes {call : Call} {found : Resolved} (h : call.Takes found) :
    ∃ name, Keyword.spelling name = call.name ∧ Completes (ofName name) call.args found := by
  cases h with
  | attack htarget hunit =>
    refine ⟨.attack, rfl, completes_bind.mpr ⟨_, _, target_eq_ok_iff.mpr ⟨_, rfl, htarget⟩, ?_⟩⟩
    exact completes_bind_pure.mpr ⟨_, completes_unit.mpr hunit, rfl⟩
  | move hmove =>
    exact ⟨.move, rfl, completes_bind_pure.mpr ⟨_, completes_move.mpr hmove, rfl⟩⟩
  | stand => exact ⟨.stand, rfl, completes_pure.mpr ⟨rfl, rfl⟩⟩
  | explore => exact ⟨.explore, rfl, completes_pure.mpr ⟨rfl, rfl⟩⟩
  | inRegion hregion =>
    exact ⟨.inRegion, rfl, completes_bind_pure.mpr ⟨_, completes_region.mpr hregion, rfl⟩⟩
  | inSight hteam hunit =>
    refine ⟨.inSight, rfl, completes_required_bind.mpr ⟨_, _, _, rfl, hteam, ?_⟩⟩
    exact completes_bind_pure.mpr ⟨_, completes_unit.mpr hunit, rfl⟩
  | inReach hteam hunit =>
    refine ⟨.inReach, rfl, completes_required_bind.mpr ⟨_, _, _, rfl, hteam, ?_⟩⟩
    exact completes_bind_pure.mpr ⟨_, completes_unit.mpr hunit, rfl⟩
  | isArmed hsubject =>
    refine ⟨.isArmed, rfl, completes_bind_pure.mpr ⟨_, ?_, rfl⟩⟩
    exact completes_required.mpr ⟨_, rfl, hsubject⟩
  | isDying hsubject hlevel =>
    refine ⟨.isDying, rfl, completes_required_bind.mpr ⟨_, _, _, rfl, hsubject, ?_⟩⟩
    exact completes_bind_pure.mpr ⟨_, completes_required.mpr ⟨_, rfl, hlevel⟩, rfl⟩
  | isType hnegation hunit =>
    refine ⟨.isType, rfl, completes_required_bind.mpr ⟨_, _, _, rfl, hnegation, ?_⟩⟩
    exact completes_bind_pure.mpr ⟨_, completes_required.mpr ⟨_, rfl, hunit⟩, rfl⟩
  | isFlock hteam hdirection =>
    refine ⟨.isFlock, rfl, completes_required_bind.mpr ⟨_, _, _, rfl, hteam, ?_⟩⟩
    exact completes_bind_pure.mpr ⟨_, completes_required.mpr ⟨_, rfl, hdirection⟩, rfl⟩
  | hasObstacle hdirection hheading =>
    refine ⟨.hasObstacle, rfl, completes_bind_pure.mpr ⟨_, ?_, rfl⟩⟩
    exact completes_heading.mpr ⟨_, _, rfl, hdirection, hheading⟩
  | invert => exact ⟨.invert, rfl, completes_pure.mpr ⟨rfl, rfl⟩⟩
  | forceSuccess => exact ⟨.forceSuccess, rfl, completes_pure.mpr ⟨rfl, rfl⟩⟩
  | forceFailure => exact ⟨.forceFailure, rfl, completes_pure.mpr ⟨rfl, rfl⟩⟩

theorem bind_eq_ok_iff_completes {name : AtomicName} {args : List Arg} {found : Resolved} :
    bind name args = .ok found ↔ Completes (ofName name) args found := by
  unfold bind Completes StateT.run
  split
  · next resolved h => simp [h]
  · next resolved arg rest h => simp [h]
  · next e h => simp [h]

end Arguments

def callNames : List String :=
  ["attack", "move", "stand", "explore", "in_region", "in_sight", "in_reach", "is_armed",
    "is_dying", "is_type", "is_flock", "has_obstacle", "invert", "force_success", "force_failure"]

theorem mem_callNames_iff {word : String} :
    word ∈ callNames ↔ ∃ name : AtomicName, Keyword.read? word = some name := by
  have hspellings : callNames = Keyword.spellings AtomicName := rfl
  rw [hspellings, Keyword.spellings, List.mem_map]
  constructor
  · rintro ⟨name, -, rfl⟩
    exact ⟨name, LawfulKeyword.read?_spelling name⟩
  · rintro ⟨name, h⟩
    exact ⟨name, List.mem_of_find?_eq_some h, Keyword.spelling_of_read? h⟩

theorem resolve_eq_ok_iff_takes {σ : Type} {call : Call} {mark : σ} {found : Resolved} :
    resolve call mark = .ok found ↔ call.Takes found := by
  unfold resolve
  constructor
  · intro h
    split at h
    · cases h
    · next name hname =>
      split at h
      · next resolved hbind =>
        cases h
        have htakes := Arguments.takes_of_completes (Arguments.bind_eq_ok_iff_completes.mp hbind)
        rw [Keyword.spelling_of_read? hname] at htakes
        exact htakes
      · cases h
  · intro h
    obtain ⟨name, hname, hcompletes⟩ := Arguments.exists_completes_of_takes h
    rw [Keyword.read?_eq_some_iff.mpr hname]
    dsimp only
    rw [Arguments.bind_eq_ok_iff_completes.mpr hcompletes]

theorem resolve_cases {σ : Type} (call : Call) (mark : σ) :
    call.name ∉ callNames ∧ resolve call mark = .error (.unknownAtomic call.name mark) ∨
      call.name ∈ callNames ∧ ((∃ found, resolve call mark = .ok found) ∨
        ∃ reason, resolve call mark = .error (.invalidParameter call.name reason mark)) := by
  unfold resolve
  rw [mem_callNames_iff]
  split
  · next hname =>
    refine .inl ⟨?_, rfl⟩
    rintro ⟨name, h⟩
    rw [hname] at h
    cases h
  · next name hname =>
    refine .inr ⟨⟨name, hname⟩, ?_⟩
    split
    · next found _ => exact .inl ⟨found, rfl⟩
    · next reason _ => exact .inr ⟨reason, rfl⟩

theorem resolve_spec {σ : Type} (call : Call) (mark : σ) :
    (∀ found, resolve call mark = .ok found ↔ call.Takes found) ∧
      (resolve call mark = .error (.unknownAtomic call.name mark) ↔ call.name ∉ callNames) ∧
      ((∃ reason, resolve call mark = .error (.invalidParameter call.name reason mark)) ↔
        call.name ∈ callNames ∧ ∀ found, ¬call.Takes found) := by
  have htakes (found : Resolved) : call.Takes found ↔ resolve call mark = .ok found :=
    resolve_eq_ok_iff_takes.symm
  refine ⟨fun found => (htakes found).symm, ?_, ?_⟩
  · rcases resolve_cases call mark with ⟨hname, h⟩ | ⟨hname, ⟨found, h⟩ | ⟨reason, h⟩⟩
    all_goals simp [h, hname]
  · simp only [htakes]
    rcases resolve_cases call mark with ⟨hname, h⟩ | ⟨hname, ⟨found, h⟩ | ⟨reason, h⟩⟩
    all_goals simp [h, hname]

example : resolve ⟨"attack", [.ref (.enemy 4294967290), .quoted "any"]⟩ () =
    .ok (.leaf (.attack (.slot 4294967290) none)) := by decide

end BattleTree
