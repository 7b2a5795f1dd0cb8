import BattleTree.Proofs.Catalog.Signature

/-!
This module contains that calls are bound whatever the spelling of their arguments is. A keyword can
be a word or quoted, and `self` is a keyword too. The call table has every spelling of a call or
none.
-/

namespace BattleTree

namespace Arg

def plain : Arg → Arg
  | word text | quoted text => word text
  | ref .self => word "self"
  | ref (.enemy slot) => ref (.enemy slot)
  | ref (.friend slot) => ref (.friend slot)

def Respells (a b : Arg) : Prop :=
  a.plain = b.plain

theorem asWord?_plain (a : Arg) : a.plain.asWord? = a.asWord? := by
  rcases a with text | text | _ | slot | slot <;> rfl

theorem Respells.asWord?_eq {a b : Arg} (h : a.Respells b) : a.asWord? = b.asWord? := by
  rw [← asWord?_plain a, h, asWord?_plain]

theorem Respells.eq_of_asWord?_eq_none {a b : Arg} (h : a.Respells b) (ha : a.asWord? = none) :
    a = b := by
  rcases a with text | text | _ | slot | slot
  · cases ha
  · cases ha
  · cases ha
  all_goals
    rcases b with text' | text' | _ | slot' | slot'
    all_goals simp_all [Respells, plain]

theorem Respells.spells {a b : Arg} (h : a.Respells b) {word : String} (ha : a.Spells word) :
    b.Spells word := by
  rw [← asWord?_eq_some_iff] at ha ⊢
  rw [← h.asWord?_eq, ha]

theorem Respells.targets {a b : Arg} (h : a.Respells b) {target : AttackTarget}
    (ha : a.Targets target) : b.Targets target := by
  cases ha with
  | qualified ha => exact .qualified (h.spells ha)
  | slot hslot =>
    rw [← h.eq_of_asWord?_eq_none rfl]
    exact .slot hslot

end Arg

structure Call.Respells (call call' : Call) : Prop where
  name_eq : call.name = call'.name
  args : List.Forall₂ Arg.Respells call.args call'.args

theorem Call.Respells.refl (call : Call) : call.Respells call :=
  ⟨rfl, List.forall₂_same.mpr fun _ _ => rfl⟩

namespace Arguments

variable {args args' : List Arg} (hargs : List.Forall₂ Arg.Respells args args')

include hargs

theorem Filters.respelled {unit : Option UnitType} (h : Filters args unit) :
    Filters args' unit := by
  cases h with
  | missing =>
    cases hargs
    exact .missing
  | any ha =>
    rcases hargs with _ | ⟨hb, _ | _⟩
    exact .any (hb.spells ha)
  | unit ha =>
    rcases hargs with _ | ⟨hb, _ | _⟩
    exact .unit (hb.spells ha)

theorem Moves.respelled {atomic : Atomic} (h : Moves args atomic) : Moves args' atomic := by
  cases h with
  | relative hc hq ht hunit =>
    rcases hargs with _ | ⟨hc', _ | ⟨hq', _ | ⟨ht', hargs⟩⟩⟩
    exact .relative (hc'.spells hc) (hq'.spells hq) (ht'.spells ht) (hunit.respelled hargs)
  | heading ha hheading =>
    rcases hargs with _ | ⟨hb, _ | _⟩
    exact .heading (hb.spells ha) hheading
  | center ha =>
    rcases hargs with _ | ⟨hb, _ | _⟩
    exact .center (hb.spells ha)

theorem Regions.respelled {region : Region} (h : Regions args region) : Regions args' region := by
  cases h with
  | single ha hnamed =>
    rcases hargs with _ | ⟨ha', _ | _⟩
    exact .single (ha'.spells ha) hnamed
  | pair ha hb hnamed =>
    rcases hargs with _ | ⟨ha', _ | ⟨hb', _ | _⟩⟩
    exact .pair (ha'.spells ha) (hb'.spells hb) hnamed

end Arguments

theorem Call.Takes.respelled {call call' : Call} {found : Resolved} (h : call.Takes found)
    (hcall : call.Respells call') : call'.Takes found := by
  cases call' with
  | mk name args =>
    obtain ⟨rfl, hargs⟩ := hcall
    cases h with
    | attack htarget hunit =>
      rcases hargs with _ | ⟨ha, hargs⟩
      exact .attack (ha.targets htarget) (hunit.respelled hargs)
    | move hmove => exact .move (hmove.respelled hargs)
    | inRegion hregion => exact .inRegion (hregion.respelled hargs)
    | inSight hteam hunit =>
      rcases hargs with _ | ⟨ha, hargs⟩
      exact .inSight (ha.spells hteam) (hunit.respelled hargs)
    | inReach hteam hunit =>
      rcases hargs with _ | ⟨ha, hargs⟩
      exact .inReach (ha.spells hteam) (hunit.respelled hargs)
    | isArmed hsubject =>
      rcases hargs with _ | ⟨ha, _ | _⟩
      exact .isArmed (ha.spells hsubject)
    | isDying hsubject hlevel =>
      rcases hargs with _ | ⟨ha, _ | ⟨hb, _ | _⟩⟩
      exact .isDying (ha.spells hsubject) (hb.spells hlevel)
    | isType hnegation hunit =>
      rcases hargs with _ | ⟨ha, _ | ⟨hb, _ | _⟩⟩
      exact .isType (ha.spells hnegation) (hb.spells hunit)
    | isFlock hteam hdirection =>
      rcases hargs with _ | ⟨ha, _ | ⟨hb, _ | _⟩⟩
      exact .isFlock (ha.spells hteam) (hb.spells hdirection)
    | hasObstacle hdirection hheading =>
      rcases hargs with _ | ⟨ha, _ | _⟩
      exact .hasObstacle (ha.spells hdirection) hheading
    | stand | explore | invert | forceSuccess | forceFailure =>
      cases hargs
      constructor

theorem Call.Respells.symm {call call' : Call} (h : call.Respells call') : call'.Respells call :=
  ⟨h.name_eq.symm, h.args.flip.imp fun _ _ => Eq.symm⟩

inductive CompileError.Alike {σ τ : Type} : CompileError σ → CompileError τ → Prop where
  | unknownAtomic {name : String} {m : σ} {m' : τ} :
      Alike (.unknownAtomic name m) (.unknownAtomic name m')
  | invalidParameter {name : String} {reason reason' : ArgumentError} {m : σ} {m' : τ} :
      Alike (.invalidParameter name reason m) (.invalidParameter name reason' m')
  | wrongKind {name : String} {expected found : Role} {m : σ} {m' : τ} :
      Alike (.wrongKind name expected found m) (.wrongKind name expected found m')

namespace Call.Respells

variable {σ τ : Type} {call call' : Call} (h : call.Respells call') (m : σ) (m' : τ)

include h

theorem resolve_eq_ok_iff {found : Resolved} :
    resolve call m = .ok found ↔ resolve call' m' = .ok found := by
  rw [resolve_eq_ok_iff_takes, resolve_eq_ok_iff_takes]
  exact ⟨fun htakes => htakes.respelled h, fun htakes => htakes.respelled h.symm⟩

theorem alike_of_resolve {e : CompileError σ} {e' : CompileError τ} (he : resolve call m = .error e)
    (he' : resolve call' m' = .error e') : e.Alike e' := by
  have hcases := resolve_cases call m
  have hcases' := resolve_cases call' m'
  rw [he] at hcases
  rw [he', ← h.name_eq] at hcases'
  rcases hcases with ⟨hname, he⟩ | ⟨hname, ⟨_, he⟩ | ⟨_, he⟩⟩
  · rcases hcases' with ⟨-, he'⟩ | ⟨hname', -⟩
    · cases he
      cases he'
      exact .unknownAtomic
    · exact absurd hname' hname
  · cases he
  · rcases hcases' with ⟨hname', -⟩ | ⟨-, ⟨_, he'⟩ | ⟨_, he'⟩⟩
    · exact absurd hname hname'
    · cases he'
    · cases he
      cases he'
      exact .invalidParameter

end Call.Respells

end BattleTree
