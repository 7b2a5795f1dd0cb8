import BattleTree.Yaml.Node
import BattleTree.Yaml.Tag

/-!
This module contains counts: scalars that stand for natural numbers of 64 bits.
-/

namespace BattleTree.Yaml

def magnitude? : List Char → Option Nat
  | '0' :: 'x' :: cs => digits? 16 cs
  | '0' :: 'o' :: cs => digits? 8 cs
  | '0' :: 'b' :: cs => digits? 2 cs
  | ['0'] => some 0
  | '0' :: _ => none
  | cs => digits? 10 cs

def natural? (text : String) : Option Nat :=
  match text.toList with
  | '+' :: cs => magnitude? cs
  | cs => magnitude? cs

def isNumeric (tag : Option String) : Style → Bool
  | .plain => true
  | .literal => tag = some (coreTag "int")
  | .quoted | .folded => false

def Node.count? : Node → Option Nat
  | scalar tag style text =>
    if isNumeric tag style then (natural? text).filter (· < UInt64.size) else none
  | _ => none

end BattleTree.Yaml
