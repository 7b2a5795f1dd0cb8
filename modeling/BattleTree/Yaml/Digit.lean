/-!
This module contains digits and the numbers that they spell.
-/

namespace BattleTree.Yaml

def digit? (base : Nat) (c : Char) : Option Nat :=
  let n :=
    if c.isDigit then some (c.toNat - '0'.toNat)
    else if 'a' ≤ c ∧ c ≤ 'z' then some (c.toNat - 'a'.toNat + 10)
    else if 'A' ≤ c ∧ c ≤ 'Z' then some (c.toNat - 'A'.toNat + 10)
    else none
  n.filter (· < base)

def digits? (base : Nat) (cs : List Char) : Option Nat := do
  guard (!cs.isEmpty)
  return (← cs.mapM (digit? base)).foldl (fun n digit => base * n + digit) 0

end BattleTree.Yaml
