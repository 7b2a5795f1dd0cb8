import BattleTree.Bank.Programs
import BattleTree.Proofs.Except
import Mathlib.Data.List.Perm.Basic

/-!
This module contains that programs are the same in whatever order they are found, and the bank that
they are compiled to: it has their trees in the order of their names.
-/

namespace BattleTree

/-- The outcome of a program text, with the fault of the first part of the work that fails. -/
inductive Program.Gives (text : String) : Except BuildError Graph → Prop where
  | unparsed {e : ParseError} : Program.parse text = .error e → Gives text (.error (.parse e))
  | unbound {t : SyntaxTree Span} {e : CompileError Span} :
      Program.parse text = .ok t → t.compile = .error e → Gives text (.error (.compile e))
  | graph {t : SyntaxTree Span} {g : Graph} :
      Program.parse text = .ok t → t.compile = .ok g → Gives text (.ok g)

theorem Program.gives_compile (text : String) : Gives text (compile text) := by
  unfold compile
  cases ht : parse text with
  | error e => exact .unparsed ht
  | ok t =>
    dsimp only
    cases hg : t.compile with
    | error e => exact .unbound ht hg
    | ok g => exact .graph ht hg

theorem Program.compile_eq_iff {text : String} {r : Except BuildError Graph} :
    compile text = r ↔ Gives text r := by
  constructor
  · rintro rfl
    exact gives_compile text
  · intro h
    unfold compile
    cases h with
    | unparsed ht => rw [ht]
    | unbound ht hg | graph ht hg =>
      rw [ht]
      dsimp only
      rw [hg]

namespace Bank

def trees (b : Bank) : List (String × Graph) :=
  b.names.toList.zip b.graphs.toList

theorem length_names (b : Bank) : b.names.toList.length = b.graphs.toList.length := by
  exact b.size_eq

theorem map_fst_trees (b : Bank) : b.trees.map Prod.fst = b.names.toList := by
  exact List.map_fst_zip (Nat.le_of_eq b.length_names)

theorem map_snd_trees (b : Bank) : b.trees.map Prod.snd = b.graphs.toList := by
  exact List.map_snd_zip (Nat.le_of_eq b.length_names.symm)

theorem trees_inj {b b' : Bank} : b.trees = b'.trees ↔ b = b' := by
  constructor
  · intro h
    have hnames := congrArg (List.map Prod.fst) h
    have hgraphs := congrArg (List.map Prod.snd) h
    rw [map_fst_trees, map_fst_trees, Array.toList_inj] at hnames
    rw [map_snd_trees, map_snd_trees, Array.toList_inj] at hgraphs
    cases b
    cases b'
    rw [mk.injEq]
    exact ⟨hnames, hgraphs⟩
  · rintro rfl
    rfl

theorem trees_push (b : Bank) (name : String) (graph : Graph) :
    (b.push name graph).1.trees = b.trees ++ [(name, graph)] := by
  unfold push trees
  dsimp only
  rw [Array.toList_push, Array.toList_push, List.zip_append b.length_names]
  rfl

theorem name?_eq_map (b : Bank) (index : Nat) : b.name? index = b.trees[index]?.map Prod.fst := by
  unfold name?
  rw [← List.getElem?_map, map_fst_trees, Array.getElem?_toList]

theorem get?_eq_map (b : Bank) (index : Nat) : b.get? index = b.trees[index]?.map Prod.snd := by
  unfold get?
  rw [← List.getElem?_map, map_snd_trees, Array.getElem?_toList]

theorem exists_trees_eq (trees : List (String × Graph)) : ∃ b : Bank, b.trees = trees := by
  let b : Bank := {
    names := (trees.map Prod.fst).toArray
    graphs := (trees.map Prod.snd).toArray
    size_eq := by simp }
  exact ⟨b, (List.zip_of_prod rfl rfl).symm⟩

theorem indexOf?_of_name? {b : Bank} {name : String} {index : Nat}
    (h : b.names.toList.Pairwise (· < ·)) (hname : b.name? index = some name) :
    b.indexOf? name = some index := by
  unfold name? at hname
  rw [← Array.getElem?_toList] at hname
  obtain ⟨hindex, rfl⟩ := List.getElem?_eq_some_iff.mp hname
  unfold indexOf?
  rw [List.findIdx?_eq_some_iff_getElem]
  refine ⟨hindex, by simp, ?_⟩
  intro place hplace heq
  have hlt := List.pairwise_iff_getElem.mp h place index (by omega) hindex hplace
  rw [of_decide_eq_true heq] at hlt
  exact String.lt_irrefl _ hlt

end Bank

namespace Programs

variable {programs : Programs}

theorem mem_insert_self (name text : String) (programs : Programs) :
    (name, text) ∈ programs.insert name text := by
  fun_induction insert name text programs with
  | case1 => exact List.mem_singleton_self _
  | case2 => exact List.mem_cons_self
  | case3 q programs _ _ ih => exact List.mem_cons_of_mem q ih
  | case4 => exact List.mem_cons_self

theorem mem_insert_of_ne {name text : String} {p : String × String} (h : p ∈ programs)
    (hne : p.1 ≠ name) : p ∈ programs.insert name text := by
  fun_induction insert name text programs with
  | case1 => exact List.mem_cons_of_mem _ h
  | case2 => exact List.mem_cons_of_mem _ h
  | case3 q programs _ _ ih =>
    rcases List.mem_cons.mp h with rfl | h
    · exact List.mem_cons_self
    · exact List.mem_cons_of_mem q (ih h)
  | case4 q programs hlt hgt =>
    rcases List.mem_cons.mp h with rfl | h
    · exact absurd (String.le_antisymm (String.not_lt.mp hlt) (String.not_lt.mp hgt)) hne
    · exact List.mem_cons_of_mem _ h

def Consistent (programs : List (String × String)) : Prop :=
  ∀ p ∈ programs, ∀ q ∈ programs, p.1 = q.1 → p = q

theorem mem_insert_iff {name text : String} {p : String × String}
    (h : Consistent ((name, text) :: programs)) :
    p ∈ programs.insert name text ↔ p ∈ (name, text) :: programs := by
  rw [List.mem_cons]
  constructor
  · exact mem_insert
  · rintro (rfl | hp)
    · exact mem_insert_self name text programs
    · by_cases hname : p.1 = name
      · rw [h p (List.mem_cons_of_mem _ hp) (name, text) List.mem_cons_self hname]
        exact mem_insert_self name text programs
      · exact mem_insert_of_ne hp hname

theorem mem_foldl_insert {found : List (String × String)} {p : String × String}
    (h : Consistent (found ++ programs)) :
    p ∈ found.foldl (fun sorted (name, text) => sorted.insert name text) programs ↔
      p ∈ found ++ programs := by
  induction found generalizing programs with
  | nil => rfl
  | cons q found ih =>
    have hq : Consistent (q :: programs) := by
      intro p hp r hr
      apply h
      · rcases List.mem_cons.mp hp with rfl | hp <;> simp [*]
      · rcases List.mem_cons.mp hr with rfl | hr <;> simp [*]
    have hmem (p : String × String) :
        p ∈ found ++ programs.insert q.1 q.2 ↔ p ∈ q :: found ++ programs := by
      rw [List.mem_append, mem_insert_iff hq]
      simp only [List.mem_cons, List.mem_append, List.cons_append]
      exact or_left_comm
    rw [List.foldl_cons, ih, hmem]
    intro p hp r hr
    exact h p ((hmem p).mp hp) r ((hmem r).mp hr)

theorem mem_ofList_iff {found : List (String × String)} {p : String × String}
    (h : Consistent found) : p ∈ ofList found ↔ p ∈ found := by
  unfold ofList
  rw [mem_foldl_insert, List.append_nil]
  rwa [List.append_nil]

theorem sorted_foldl_insert (found : List (String × String)) (h : programs.Sorted) :
    (found.foldl (fun sorted (name, text) => sorted.insert name text) programs).Sorted := by
  induction found generalizing programs with
  | nil => exact h
  | cons q found ih => exact ih (sorted_insert h)

theorem sorted_ofList (found : List (String × String)) : (ofList found).Sorted := by
  exact sorted_foldl_insert found .nil

theorem Sorted.nodup (h : programs.Sorted) : programs.Nodup := by
  apply h.imp
  rintro p _ hlt rfl
  exact String.lt_irrefl _ hlt

theorem Sorted.eq_of_mem_iff {others : Programs} (h : programs.Sorted) (hothers : others.Sorted)
    (hmem : ∀ p, p ∈ programs ↔ p ∈ others) : programs = others := by
  apply List.Perm.eq_of_pairwise ?_ h hothers
  · exact (List.perm_ext_iff_of_nodup h.nodup hothers.nodup).mpr hmem
  · intro p q _ _ hlt hgt
    exact absurd hgt (String.lt_asymm hlt)

def Builds (p : String × String) (tree : String × Graph) : Prop :=
  tree.1 = p.1 ∧ Program.Gives p.2 (.ok tree.2)

def add (b : Bank) (p : String × String) : Except (String × BuildError) Bank := do
  let graph ← (Program.compile p.2).mapError fun e => (p.1, e)
  return (b.push p.1 graph).1

theorem build_eq_foldlM (programs : Programs) : programs.build = programs.foldlM add .empty := by
  rfl

theorem add_eq_ok_iff {b b' : Bank} {p : String × String} :
    add b p = .ok b' ↔ ∃ tree, Builds p tree ∧ b'.trees = b.trees ++ [tree] := by
  unfold add Builds
  simp only [← Program.compile_eq_iff]
  cases Program.compile p.2 with
  | error e =>
    constructor
    · intro h
      cases h
    · rintro ⟨tree, ⟨-, h⟩, -⟩
      cases h
  | ok graph =>
    constructor
    · intro h
      obtain rfl := Except.ok.inj h
      exact ⟨(p.1, graph), ⟨rfl, rfl⟩, b.trees_push p.1 graph⟩
    · rintro ⟨⟨_, _⟩, ⟨rfl, h⟩, hb'⟩
      obtain rfl := Except.ok.inj h
      rw [← Bank.trees_push] at hb'
      rw [Bank.trees_inj.mp hb']
      rfl

theorem add_eq_error {b : Bank} {p : String × String} {e : String × BuildError}
    (h : add b p = .error e) : p.1 = e.1 ∧ Program.Gives p.2 (.error e.2) := by
  unfold add at h
  rw [← Program.compile_eq_iff]
  cases hp : Program.compile p.2 with
  | error e' =>
    rw [hp] at h
    obtain rfl := Except.error.inj h
    exact ⟨rfl, rfl⟩
  | ok graph =>
    rw [hp] at h
    cases h

theorem foldlM_add_eq_ok_iff {b b' : Bank} :
    programs.foldlM add b = .ok b' ↔
      ∃ trees, List.Forall₂ Builds programs trees ∧ b'.trees = b.trees ++ trees := by
  induction programs generalizing b with
  | nil =>
    simp only [List.forall₂_nil_left_iff, exists_eq_left, List.append_nil, Bank.trees_inj,
      eq_comm (a := b')]
    exact iff_of_eq (Except.ok.injEq b b')
  | cons p programs ih =>
    rw [List.foldlM_cons, bind_eq_ok_iff]
    constructor
    · rintro ⟨next, hnext, h⟩
      obtain ⟨tree, htree, hnext⟩ := add_eq_ok_iff.mp hnext
      obtain ⟨trees, htrees, hb'⟩ := ih.mp h
      rw [hnext, List.append_assoc] at hb'
      exact ⟨tree :: trees, .cons htree htrees, hb'⟩
    · rintro ⟨_, hbuilds, hb'⟩
      obtain ⟨tree, trees, htree, htrees, rfl⟩ := List.forall₂_cons_left_iff.mp hbuilds
      have hnext := b.trees_push tree.1 tree.2
      refine ⟨(b.push tree.1 tree.2).1, add_eq_ok_iff.mpr ⟨tree, htree, hnext⟩, ?_⟩
      apply ih.mpr
      refine ⟨trees, htrees, ?_⟩
      rw [hnext, List.append_assoc]
      exact hb'

theorem build_eq_ok_iff {b : Bank} :
    programs.build = .ok b ↔ List.Forall₂ Builds programs b.trees := by
  have hempty : Bank.empty.trees = [] := by rfl
  rw [build_eq_foldlM, foldlM_add_eq_ok_iff, hempty]
  simp

theorem exists_build_iff :
    (∃ b, programs.build = .ok b) ↔ ∀ p ∈ programs, ∃ g, Program.Gives p.2 (.ok g) := by
  constructor
  · rintro ⟨b, hb⟩
    exact forall_mem_of_forall₂ (build_eq_ok_iff.mp hb) fun _ tree h => ⟨tree.2, h.2⟩
  · intro h
    have hbuilds : ∀ p ∈ programs, ∃ tree, Builds p tree := by
      intro p hp
      obtain ⟨g, hg⟩ := h p hp
      exact ⟨(p.1, g), rfl, hg⟩
    obtain ⟨trees, htrees⟩ := exists_forall₂ hbuilds
    obtain ⟨b, rfl⟩ := Bank.exists_trees_eq trees
    exact ⟨b, build_eq_ok_iff.mpr htrees⟩

theorem names_of_build {b : Bank} (h : programs.build = .ok b) :
    b.names.toList = programs.map Prod.fst := by
  rw [← b.map_fst_trees, ← List.forall₂_eq_eq_eq, List.forall₂_map_left_iff,
    List.forall₂_map_right_iff]
  exact (build_eq_ok_iff.mp h).flip.imp fun _ _ hbuilds => hbuilds.1

theorem get?_of_build {b : Bank} {name : String} {index : Nat} (h : programs.build = .ok b)
    (hname : b.name? index = some name) :
    ∃ text g, (name, text) ∈ programs ∧ Program.Gives text (.ok g) ∧ b.get? index = some g := by
  have hbuilds := forall₂_getElem? (build_eq_ok_iff.mp h) index
  rw [Bank.name?_eq_map] at hname
  obtain ⟨⟨_, g⟩, htree, rfl⟩ := Option.map_eq_some_iff.mp hname
  rw [htree] at hbuilds
  cases hp : programs[index]? with
  | none =>
    rw [hp] at hbuilds
    cases hbuilds
  | some p =>
    rw [hp] at hbuilds
    obtain ⟨rfl, hgives⟩ := Option.rel_some_some.mp hbuilds
    refine ⟨p.2, g, List.mem_of_getElem? hp, hgives, ?_⟩
    rw [Bank.get?_eq_map, htree]
    rfl

theorem exists_first_of_foldlM_eq_error {b : Bank} {e : String × BuildError}
    (h : programs.foldlM add b = .error e) :
    ∃ before p after, programs = before ++ p :: after ∧
      (∀ q ∈ before, ∃ g, Program.Gives q.2 (.ok g)) ∧
        p.1 = e.1 ∧ Program.Gives p.2 (.error e.2) := by
  induction programs generalizing b with
  | nil => cases h
  | cons p programs ih =>
    rw [List.foldlM_cons, bind_eq_error_iff] at h
    rcases h with hp | ⟨next, hnext, h⟩
    · exact ⟨[], p, programs, rfl, List.forall_mem_nil _, add_eq_error hp⟩
    · obtain ⟨tree, htree, -⟩ := add_eq_ok_iff.mp hnext
      obtain ⟨before, q, after, rfl, hbefore, hq⟩ := ih h
      exact ⟨p :: before, q, after, rfl, List.forall_mem_cons.mpr ⟨⟨tree.2, htree.2⟩, hbefore⟩, hq⟩

end Programs

end BattleTree
