import BattleTree.Program.Combinators
import BattleTree.Proofs.Program.Descent
import Mathlib.Logic.Basic

/-!
This module contains what combinators do with the values and errors of the scanners that they are
given. A scanner follows a reader by recursive descent if both read the same value, or are stopped
at the same place, where the same was expected. Of several alternatives, those that give up at the
start do not matter.
-/

namespace BattleTree

namespace Scanner

variable {α β : Type} {cs rest : List Char} {p : Scanner α}

inductive Follows (bound : Nat) :
    Except Halt (α × List Char) → Except Failure (α × List Char) → Prop where
  | ok {value : α} {rest : List Char} : rest.length ≤ bound →
      Follows bound (.ok (value, rest)) (.ok (value, rest))
  | error {halt : Halt} {failure : Failure} : halt.cause.rest = failure.rest →
      halt.cause.expected = failure.expected.text → failure.rest.length ≤ bound →
      Follows bound (.error halt) (.error failure)

theorem Follows.mono {bound bound' : Nat} {x : Except Halt (α × List Char)}
    {y : Except Failure (α × List Char)} (h : Follows bound x y) (hle : bound ≤ bound') :
    Follows bound' x y := by
  cases h with
  | ok hrest => exact .ok (Nat.le_trans hrest hle)
  | error hrest hexpected hbound => exact .error hrest hexpected (Nat.le_trans hbound hle)

theorem Follows.bind {bound : Nat} {y : Except Failure (α × List Char)} {f : α → Scanner β}
    {g : α × List Char → Except Failure (β × List Char)} (h : Follows bound (p cs) y)
    (hnext : ∀ value rest, rest.length ≤ bound → Follows bound (f value rest) (g (value, rest))) :
    Follows bound ((p >>= f) cs) (y >>= g) := by
  change Follows bound (p cs >>= fun (value, rest) => f value rest) (y >>= g)
  generalize p cs = x at h
  cases h with
  | ok hrest => exact hnext _ _ hrest
  | error hrest hexpected hbound => exact .error hrest hexpected hbound

theorem bind_of_eq_ok {f : α → Scanner β} {value : α} (h : p cs = .ok (value, rest)) :
    (p >>= f) cs = f value rest := by
  change (p cs >>= fun (value, rest) => f value rest) = f value rest
  rw [h]
  rfl

theorem bind_of_eq_error {f : α → Scanner β} {halt : Halt} (h : p cs = .error halt) :
    (p >>= f) cs = .error halt := by
  change (p cs >>= fun (value, rest) => f value rest) = .error halt
  rw [h]
  rfl

theorem follows_cut {bound : Nat} {y : Except Failure (α × List Char)}
    (h : Follows bound (p cs) y) : Follows bound (cut p cs) y := by
  unfold cut
  generalize p cs = x at h
  cases h with
  | ok hrest => exact .ok hrest
  | error hrest hexpected hbound => exact .error hrest hexpected hbound

theorem cut_of_eq_ok {value : α} (h : p cs = .ok (value, rest)) :
    cut p cs = .ok (value, rest) := by
  unfold cut
  rw [h]

theorem altAfter_of_error {ps : List (Scanner α)} {e : GrammarError}
    (h : p cs = .error (.error e)) (others : Option GrammarError) :
    altAfter others (p :: ps) cs = altAfter (some (e.following others)) ps cs := by
  dsimp only [altAfter]
  rw [h]

theorem altAfter_of_ne_error {ps : List (Scanner α)} (h : ∀ e, p cs ≠ .error (.error e))
    (others : Option GrammarError) : altAfter others (p :: ps) cs = p cs := by
  dsimp only [altAfter]
  split
  · next e he => exact absurd he (h e)
  · rfl

theorem context_of_eq_error {halt : Halt} (h : p cs = .error halt) (label : String) :
    context label p cs = .error (halt.map (.addContext cs label)) := by
  unfold context
  rw [h]

theorem manyFrom_of_error {e : GrammarError} (h : p cs = .error (.error e)) (fuel : Nat) :
    manyFrom p (fuel + 1) cs = .ok ([], cs) := by
  dsimp only [manyFrom]
  rw [h]

theorem manyFrom_of_failure {e : GrammarError} (h : p cs = .error (.failure e)) (fuel : Nat) :
    manyFrom p (fuel + 1) cs = .error (.failure e) := by
  dsimp only [manyFrom]
  rw [h]

theorem manyFrom_of_ok {first : α} (h : p cs = .ok (first, rest)) (hlt : rest.length < cs.length)
    (fuel : Nat) :
    manyFrom p (fuel + 1) cs =
      (do return first :: (← manyFrom p fuel) : Scanner (List α)) rest := by
  dsimp only [manyFrom]
  rw [h]
  exact if_neg (Nat.ne_of_lt hlt)

theorem follows_manyFrom_of_ok {bound fuel : Nat} {first : α}
    {y : Except Failure (List α × List Char)} (h : p cs = .ok (first, rest))
    (hlt : rest.length < cs.length) (hothers : Follows bound (manyFrom p fuel rest) y) :
    Follows bound (manyFrom p (fuel + 1) cs)
      (y >>= fun found => .ok (first :: found.1, found.2)) := by
  rw [manyFrom_of_ok h hlt]
  refine .bind hothers ?_
  intro others rest hrest
  exact .ok hrest

theorem takeWhile1_of_head {q : Char → Bool} {c : Char} (h : q c = true) (kind : ErrorKind) :
    takeWhile1 kind q (c :: cs) = .ok (c :: cs.takeWhile q, cs.dropWhile q) := by
  unfold takeWhile1 takeWhile
  rw [List.takeWhile_cons_of_pos h, List.dropWhile_cons_of_pos h]
  rfl

theorem takeWhile1_of_not {q : Char → Bool} (h : ∀ c ∈ cs.head?, q c = false) (kind : ErrorKind) :
    takeWhile1 kind q cs = .error (.error (.ofKind cs kind)) := by
  unfold takeWhile1
  cases cs with
  | nil => rfl
  | cons c cs =>
    rw [List.takeWhile_cons_of_neg (by simp [h c rfl])]
    rfl

theorem char_cons (c : Char) (cs : List Char) : char c (c :: cs) = .ok ((), cs) := by
  exact if_pos rfl

theorem char_of_ne {c : Char} (h : c ∉ cs.head?) :
    char c cs = .error (.error (.ofChar cs c)) := by
  cases cs with
  | nil => rfl
  | cons d cs =>
    have hne : d ≠ c := by simpa [eq_comm] using h
    exact if_neg hne

theorem tag_of_not {text : List Char} (h : ∀ rest, cs ≠ text ++ rest) :
    tag text cs = .error (.error (.ofKind cs .tag)) := by
  apply if_neg
  intro hprefix
  obtain ⟨rest, hrest⟩ := List.isPrefixOf_iff_prefix.mp hprefix
  exact h rest hrest.symm

/-- A scanner that gives up at the start, where its error can still be labelled. -/
def Declines (p : Scanner α) (cs : List Char) : Prop :=
  ∃ e : GrammarError, p cs = .error (.error e) ∧ e.rest = cs ∧ e.labelled = false

theorem following_start {others : Option GrammarError} {e : GrammarError}
    (he : e.rest = cs ∧ e.labelled = false)
    (hothers : ∀ e ∈ others, e.rest = cs ∧ e.labelled = false) :
    (e.following others).rest = cs ∧ (e.following others).labelled = false := by
  cases others with
  | none => exact he
  | some other =>
    obtain h | h : other.or e = e ∨ other.or e = other := ite_eq_or_eq ..
    · rw [GrammarError.following, h]
      exact he
    · rw [GrammarError.following, h]
      exact hothers other rfl

theorem following_of_le {others : Option GrammarError} {e : GrammarError}
    (h : ∀ other ∈ others, e.rest.length ≤ other.rest.length) : e.following others = e := by
  cases others with
  | none => rfl
  | some other => exact if_pos (h other rfl)

theorem altAfter_of_declines {ps : List (Scanner α)} {others : Option GrammarError}
    (h : ∀ p ∈ ps, Declines p cs) (hothers : ∀ e ∈ others, e.rest = cs ∧ e.labelled = false) :
    Declines (altAfter others ps) cs := by
  induction ps generalizing others with
  | nil =>
    cases others with
    | none => exact ⟨_, rfl, rfl, rfl⟩
    | some e => exact ⟨e, rfl, hothers e rfl⟩
  | cons p ps ih =>
    rw [List.forall_mem_cons] at h
    obtain ⟨⟨e, hp, he⟩, hps⟩ := h
    have hstart : ∀ e' ∈ some (e.following others), e'.rest = cs ∧ e'.labelled = false := by
      rintro _ ⟨⟩
      exact following_start he hothers
    obtain ⟨e', hps, he'⟩ := ih hps hstart
    exact ⟨e', (altAfter_of_error hp others).trans hps, he'⟩

theorem altAfter_of_farther {ps : List (Scanner α)} {e : GrammarError}
    (h : ∀ p ∈ ps, Declines p cs) (he : e.rest.length < cs.length) :
    altAfter (some e) ps cs = .error (.error e) := by
  induction ps with
  | nil => rfl
  | cons p ps ih =>
    rw [List.forall_mem_cons] at h
    obtain ⟨⟨e', hp, hrest, -⟩, hps⟩ := h
    have hfollowing : e'.following (some e) = e := if_neg (by rw [hrest]; omega)
    rw [altAfter_of_error hp, hfollowing, ih hps]

theorem altAfter_append {before after : List (Scanner α)} {others : Option GrammarError}
    (hbefore : ∀ q ∈ before, Declines q cs) (hafter : ∀ q ∈ after, Declines q cs)
    (hothers : ∀ e ∈ others, e.rest = cs ∧ e.labelled = false)
    (hp : ∀ e, p cs = .error (.error e) → e.rest.length < cs.length) :
    altAfter others (before ++ p :: after) cs = p cs := by
  induction before generalizing others with
  | nil =>
    rw [List.nil_append]
    by_cases herror : ∃ e, p cs = .error (.error e)
    · obtain ⟨e, he⟩ := herror
      have hlt := hp e he
      have hfollowing : e.following others = e := by
        apply following_of_le
        intro other hother
        rw [(hothers other hother).1]
        omega
      rw [altAfter_of_error he, hfollowing, altAfter_of_farther hafter hlt, he]
    · exact altAfter_of_ne_error (fun e he => herror ⟨e, he⟩) others
  | cons q before ih =>
    rw [List.forall_mem_cons] at hbefore
    obtain ⟨⟨e, hq, he⟩, hbefore⟩ := hbefore
    rw [List.cons_append, altAfter_of_error hq]
    apply ih hbefore
    rintro _ ⟨⟩
    exact following_start he hothers

theorem context_of_declines (label : String) (h : Declines p cs) :
    context label p cs = .error (.error ⟨cs, label, true⟩) := by
  obtain ⟨⟨rest, expected, labelled⟩, hp, rfl, rfl⟩ := h
  have hlabel : GrammarError.addContext rest label ⟨rest, expected, false⟩ =
      ⟨rest, label, true⟩ := by
    exact if_pos (decide_eq_true rfl)
  rw [context_of_eq_error hp, Halt.map, hlabel]

theorem context_of_follows {bound : Nat} {y : Except Failure (α × List Char)} (label : String)
    (h : Follows bound (p cs) y) (hlt : bound < cs.length) : context label p cs = p cs := by
  generalize hx : p cs = x at h
  cases h with
  | ok =>
    unfold context
    rw [hx]
  | @error halt failure hrest _ hbound =>
    have hlabel (e : GrammarError) (he : e.rest = failure.rest) : e.addContext cs label = e := by
      apply if_neg
      rw [he]
      simp only [Bool.and_eq_true, decide_eq_true_eq, not_and]
      omega
    rw [context_of_eq_error hx]
    cases halt with
    | error e => rw [Halt.map, hlabel e hrest]
    | failure e => rw [Halt.map, hlabel e hrest]

theorem Follows.lt_of_eq_error {bound : Nat} {y : Except Failure (α × List Char)}
    {e : GrammarError} (h : Follows bound (p cs) y) (he : p cs = .error (.error e)) :
    e.rest.length ≤ bound := by
  rw [he] at h
  cases h with
  | error hrest _ hbound => exact hrest ▸ hbound

end Scanner

end BattleTree
