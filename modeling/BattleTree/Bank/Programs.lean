import BattleTree.Bank.Basic
import BattleTree.Graph.Compile

/-!
This module contains named program texts and the bank that they are compiled to. The order of the
names decides the indices of the trees, so it does not matter in which order the programs are found.
-/

namespace BattleTree

abbrev Programs := List (String × String)

namespace Programs

def Sorted (programs : Programs) : Prop :=
  programs.Pairwise fun p q => p.1 < q.1

def insert (name text : String) : Programs → Programs
  | [] => [(name, text)]
  | p :: programs =>
    if name < p.1 then (name, text) :: p :: programs
    else if p.1 < name then p :: insert name text programs
    else (name, text) :: programs

def ofList (programs : List (String × String)) : Programs :=
  programs.foldl (fun sorted (name, text) => sorted.insert name text) []

def build (programs : Programs) : Except (String × BuildError) Bank :=
  programs.foldlM
    (fun bank (name, text) => do
      let graph ← (Program.compile text).mapError fun e => (name, e)
      return (bank.push name graph).1)
    Bank.empty

theorem mem_insert {name text : String} {programs : Programs} {p : String × String}
    (h : p ∈ programs.insert name text) : p = (name, text) ∨ p ∈ programs := by
  fun_induction insert name text programs with
  | case1 => simpa using h
  | case2 => simpa using h
  | case3 q programs _ _ ih =>
    rcases List.mem_cons.mp h with rfl | h
    · simp
    · rcases ih h with rfl | h <;> simp_all
  | case4 =>
    rcases List.mem_cons.mp h with rfl | h
    · simp
    · simp [h]

theorem sorted_insert {name text : String} {programs : Programs} (h : programs.Sorted) :
    (programs.insert name text).Sorted := by
  unfold Sorted at h ⊢
  fun_induction insert name text programs with
  | case1 => simp
  | case2 p programs hlt =>
    refine List.pairwise_cons.mpr ⟨fun q hq => ?_, h⟩
    rcases List.mem_cons.mp hq with rfl | hq
    · exact hlt
    · exact String.lt_trans hlt (List.rel_of_pairwise_cons h hq)
  | case3 p programs _ hgt ih =>
    refine List.pairwise_cons.mpr ⟨fun q hq => ?_, ih h.of_cons⟩
    rcases mem_insert hq with rfl | hq
    · exact hgt
    · exact List.rel_of_pairwise_cons h hq
  | case4 p programs hlt hgt =>
    obtain rfl : name = p.1 := String.le_antisymm (String.not_lt.mp hgt) (String.not_lt.mp hlt)
    exact List.pairwise_cons.mpr ⟨fun q hq => List.rel_of_pairwise_cons h hq, h.of_cons⟩

end Programs

end BattleTree
