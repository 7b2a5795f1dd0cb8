import Mathlib.Data.List.Forall2

/-!
This module contains the rules that take lists, and computations with errors over them, apart.
-/

namespace BattleTree

variable {ε α β : Type}

theorem ok_bind (a : α) (f : α → Except ε β) : (.ok a : Except ε α) >>= f = f a := by
  rfl

theorem bind_eq_ok_iff {x : Except ε α} {f : α → Except ε β} {b : β} :
    x >>= f = .ok b ↔ ∃ a, x = .ok a ∧ f a = .ok b := by
  cases x with
  | error e => simp [bind, Except.bind]
  | ok a => simp [bind, Except.bind]

theorem unit_bind_eq_ok_iff {x : Except ε Unit} {f : Unit → Except ε β} {b : β} :
    x >>= f = .ok b ↔ x = .ok () ∧ f () = .ok b := by
  rw [bind_eq_ok_iff]
  exact ⟨fun ⟨(), h⟩ => h, fun h => ⟨(), h⟩⟩

theorem exists_eq_error_iff {x : Except ε α} : (∃ e, x = .error e) ↔ ¬∃ a, x = .ok a := by
  cases x with
  | error e => simp
  | ok a => simp

theorem bind_eq_error_iff {x : Except ε α} {f : α → Except ε β} {e : ε} :
    x >>= f = .error e ↔ x = .error e ∨ ∃ a, x = .ok a ∧ f a = .error e := by
  cases x with
  | error e' => simp [bind, Except.bind]
  | ok a => simp [bind, Except.bind]

theorem mapM_eq_ok_iff {f : α → Except ε β} {as : List α} {bs : List β} :
    as.mapM f = .ok bs ↔ List.Forall₂ (fun a b => f a = .ok b) as bs := by
  induction as generalizing bs with
  | nil =>
    rw [List.mapM_nil, List.forall₂_nil_left_iff]
    constructor
    · intro h
      exact (Except.ok.inj h).symm
    · rintro rfl
      rfl
  | cons a as ih =>
    rw [List.mapM_cons, bind_eq_ok_iff, List.forall₂_cons_left_iff]
    constructor
    · rintro ⟨b, hb, h⟩
      obtain ⟨cs, hcs, h⟩ := bind_eq_ok_iff.mp h
      exact ⟨b, cs, hb, ih.mp hcs, (Except.ok.inj h).symm⟩
    · rintro ⟨b, cs, hb, hcs, rfl⟩
      exact ⟨b, hb, bind_eq_ok_iff.mpr ⟨cs, ih.mpr hcs, rfl⟩⟩

theorem exists_first_of_not_forall {p : α → Prop} {as : List α} (h : ¬∀ a ∈ as, p a) :
    ∃ before a after, as = before ++ a :: after ∧ (∀ x ∈ before, p x) ∧ ¬p a := by
  induction as with
  | nil => exact absurd (List.forall_mem_nil p) h
  | cons a as ih =>
    by_cases ha : p a
    · have htail : ¬∀ a ∈ as, p a := fun has => h (List.forall_mem_cons.mpr ⟨ha, has⟩)
      obtain ⟨before, x, after, rfl, hbefore, hx⟩ := ih htail
      exact ⟨a :: before, x, after, rfl, List.forall_mem_cons.mpr ⟨ha, hbefore⟩, hx⟩
    · exact ⟨[], a, as, rfl, List.forall_mem_nil p, ha⟩

theorem forall_mem_of_forall₂ {R : α → β → Prop} {p : α → Prop} {as : List α} {bs : List β}
    (h : List.Forall₂ R as bs) (hR : ∀ a b, R a b → p a) : ∀ a ∈ as, p a := by
  induction h with
  | nil => exact List.forall_mem_nil p
  | cons hab _ ih => exact List.forall_mem_cons.mpr ⟨hR _ _ hab, ih⟩

theorem exists_of_mem_forall₂ {R : α → β → Prop} {as : List α} {bs : List β} {b : β}
    (h : List.Forall₂ R as bs) (hb : b ∈ bs) : ∃ a ∈ as, R a b := by
  induction h with
  | nil => simp at hb
  | @cons a _ as _ hab _ ih =>
    rcases List.mem_cons.mp hb with rfl | hb
    · exact ⟨a, List.mem_cons_self, hab⟩
    · obtain ⟨a', ha', hR⟩ := ih hb
      exact ⟨a', List.mem_cons_of_mem a ha', hR⟩

theorem exists_forall₂ {R : α → β → Prop} {as : List α} (h : ∀ a ∈ as, ∃ b, R a b) :
    ∃ bs, List.Forall₂ R as bs := by
  induction as with
  | nil => exact ⟨[], .nil⟩
  | cons a as ih =>
    rw [List.forall_mem_cons] at h
    obtain ⟨b, hb⟩ := h.1
    obtain ⟨bs, hbs⟩ := ih h.2
    exact ⟨b :: bs, .cons hb hbs⟩

theorem forall₂_getElem? {R : α → β → Prop} {as : List α} {bs : List β} (h : List.Forall₂ R as bs)
    (i : Nat) : Option.Rel R as[i]? bs[i]? := by
  induction h generalizing i with
  | nil => exact .none
  | cons hab _ ih =>
    cases i with
    | zero => exact .some hab
    | succ i =>
      rw [List.getElem?_cons_succ, List.getElem?_cons_succ]
      exact ih i

theorem length_eq_of_first {R : α → β → Prop} {p : α → Prop} {q : β → Prop}
    (hR : ∀ a b, R a b → (p a ↔ q b)) {before after : List α} {before' after' : List β} {a : α}
    {b : β} (h : List.Forall₂ R (before ++ a :: after) (before' ++ b :: after'))
    (hbefore : ∀ x ∈ before, p x) (ha : ¬p a) (hbefore' : ∀ y ∈ before', q y) (hb : ¬q b) :
    before.length = before'.length ∧ R a b := by
  induction before generalizing before' with
  | nil =>
    cases before' with
    | nil =>
      rw [List.nil_append, List.nil_append, List.forall₂_cons] at h
      exact ⟨rfl, h.1⟩
    | cons y before' =>
      rw [List.nil_append, List.cons_append, List.forall₂_cons] at h
      exact absurd ((hR a y h.1).mpr (hbefore' y List.mem_cons_self)) ha
  | cons x before ih =>
    rw [List.forall_mem_cons] at hbefore
    cases before' with
    | nil =>
      rw [List.nil_append, List.cons_append, List.forall₂_cons] at h
      exact absurd ((hR x b h.1).mp hbefore.1) hb
    | cons y before' =>
      rw [List.cons_append, List.cons_append, List.forall₂_cons] at h
      rw [List.forall_mem_cons] at hbefore'
      obtain ⟨hlength, hab⟩ := ih h.2 hbefore.2 hbefore'.2
      exact ⟨congrArg (· + 1) hlength, hab⟩

theorem exists_mapM_eq_ok {f : α → Except ε β} {as : List α} (h : ∀ a ∈ as, ∃ b, f a = .ok b) :
    ∃ bs, as.mapM f = .ok bs := by
  obtain ⟨bs, hbs⟩ := exists_forall₂ h
  exact ⟨bs, mapM_eq_ok_iff.mpr hbs⟩

section

variable {γ δ : Type} {R : α → β → Prop} {as : List α} {bs : List β} (h : List.Forall₂ R as bs)

include h

theorem isEmpty_of_forall₂ : as.isEmpty = bs.isEmpty := by
  cases h <;> rfl

theorem anyM_of_forall₂ {p : α → Except ε Bool} {q : β → Bool}
    (hp : ∀ a b, R a b → p a = .ok (q b)) : as.anyM p = .ok (bs.any q) := by
  induction h with
  | nil => rfl
  | @cons a b as bs hab _ ih =>
    rw [List.anyM, hp a b hab, ok_bind, List.any_cons, ih]
    cases q b <;> rfl

theorem allM_of_forall₂ {p : α → Except ε Bool} {q : β → Bool}
    (hp : ∀ a b, R a b → p a = .ok (q b)) : as.allM p = .ok (bs.all q) := by
  induction h with
  | nil => rfl
  | @cons a b as bs hab _ ih =>
    rw [List.allM, hp a b hab, ok_bind, List.all_cons, ih]
    cases q b <;> rfl

theorem filterAuxM_of_forall₂ {p : α → Except ε Bool} {q : β → Bool}
    (hp : ∀ a b, R a b → p a = .ok (q b)) (kept : List α) :
    ∃ cs, as.filterAuxM p kept = .ok (cs.reverse ++ kept) ∧
      List.Forall₂ R cs (bs.filter q) := by
  induction h generalizing kept with
  | nil => exact ⟨[], rfl, .nil⟩
  | @cons a b as bs hab _ ih =>
    rw [List.filterAuxM, hp a b hab, ok_bind]
    cases hq : q b with
    | true =>
      obtain ⟨cs, hcs, hrel⟩ := ih (a :: kept)
      refine ⟨a :: cs, ?_, ?_⟩
      · rw [cond_true, hcs]
        simp
      · rw [List.filter_cons_of_pos hq]
        exact .cons hab hrel
    | false =>
      obtain ⟨cs, hcs, hrel⟩ := ih kept
      refine ⟨cs, hcs, ?_⟩
      rw [List.filter_cons_of_neg (by simp [hq])]
      exact hrel

theorem filterM_of_forall₂ {p : α → Except ε Bool} {q : β → Bool}
    (hp : ∀ a b, R a b → p a = .ok (q b)) :
    ∃ cs, as.filterM p = .ok cs ∧ List.Forall₂ R cs (bs.filter q) := by
  obtain ⟨cs, hcs, hrel⟩ := filterAuxM_of_forall₂ h hp []
  refine ⟨cs, ?_, hrel⟩
  unfold List.filterM
  rw [hcs, ok_bind, List.append_nil, List.reverse_reverse]
  rfl

theorem foldlM_of_forall₂ {S : γ → δ → Prop} {f : γ → α → Except ε γ} {g : δ → β → δ}
    (hf : ∀ c d a b, S c d → R a b → ∃ c', f c a = .ok c' ∧ S c' (g d b)) {c : γ} {d : δ}
    (hcd : S c d) : ∃ c', as.foldlM f c = .ok c' ∧ S c' (bs.foldl g d) := by
  induction h generalizing c d with
  | nil => exact ⟨c, rfl, hcd⟩
  | @cons a b as bs hab _ ih =>
    obtain ⟨c', hc', hcd⟩ := hf c d a b hcd hab
    rw [List.foldlM_cons, hc', ok_bind, List.foldl_cons]
    exact ih hcd

theorem find?_of_forall₂ {p : α → Bool} {q : β → Bool} (hp : ∀ a b, R a b → p a = q b) :
    Option.Rel R (as.find? p) (bs.find? q) := by
  induction h with
  | nil => exact .none
  | @cons a b as bs hab _ ih =>
    rw [List.find?_cons, List.find?_cons, hp a b hab]
    cases q b with
    | true => exact .some hab
    | false => exact ih

end

theorem forM_eq_ok {f : α → Except ε Unit} {as : List α} (h : ∀ a ∈ as, f a = .ok ()) :
    as.forM f = .ok () := by
  induction as with
  | nil => rfl
  | cons a as ih =>
    rw [List.forall_mem_cons] at h
    rw [List.forM_eq_forM] at ih ⊢
    rw [List.forM_cons, h.1]
    exact ih h.2

theorem forM_append_cons_eq_error {f : α → Except ε Unit} {before after : List α} {a : α} {e : ε}
    (hbefore : ∀ a ∈ before, f a = .ok ()) (ha : f a = .error e) :
    (before ++ a :: after).forM f = .error e := by
  have hforM := forM_eq_ok hbefore
  rw [List.forM_eq_forM] at hforM ⊢
  rw [List.forM_append, hforM, List.forM_cons, ha]
  rfl

end BattleTree
