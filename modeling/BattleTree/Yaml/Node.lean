/-!
This module contains the nodes of YAML documents.
-/

namespace BattleTree.Yaml

inductive Style where
  | plain
  | quoted
  | literal
  | folded
  deriving DecidableEq, Repr

/--
A node, with its tag if it is a scalar. An alias names another node by its number. Only aliases of
collections are left in a document, since a collection can contain an alias of itself.
-/
inductive Node where
  | scalar (tag : Option String) (style : Style) (text : String)
  | sequence (items : List Node)
  | mapping (entries : List (Node × Node))
  | alias (number : Nat)
  deriving Repr, Inhabited

namespace Node

def text? : Node → Option String
  | scalar _ _ text => some text
  | _ => none

def isAbsent : Node → Bool
  | scalar _ style text => style = .plain && text.isEmpty
  | _ => false

mutual

def expand (targets : List (Nat × Node)) : Node → Node
  | scalar tag style text => scalar tag style text
  | sequence items => sequence (expandItems targets items)
  | mapping entries => mapping (expandEntries targets entries)
  | .alias number => (targets.lookup number).getD (.alias number)

def expandItems (targets : List (Nat × Node)) : List Node → List Node
  | [] => []
  | n :: ns => n.expand targets :: expandItems targets ns

def expandEntries (targets : List (Nat × Node)) : List (Node × Node) → List (Node × Node)
  | [] => []
  | (key, value) :: entries =>
    (key.expand targets, value.expand targets) :: expandEntries targets entries

end

end Node

end BattleTree.Yaml
