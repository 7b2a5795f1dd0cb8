import BattleTree.Yaml.Cursor

/-!
This module contains the folding of white space inside scalars.
-/

namespace BattleTree.Yaml

inductive Gap where
  | blanks (reversed : List Char)
  | breaks (first : Option Char) (reversed : List Char)
  deriving DecidableEq, Repr

namespace Gap

def none : Gap :=
  blanks []

def isEmpty : Gap → Bool
  | blanks reversed => reversed.isEmpty
  | breaks .. => false

def isBroken : Gap → Bool
  | blanks _ => false
  | breaks .. => true

def addBlank (c : Char) : Gap → Gap
  | blanks reversed => blanks (c :: reversed)
  | gap => gap

def addBreak (c : Char) : Gap → Gap
  | blanks _ => breaks (some c) []
  | breaks first reversed => breaks first (c :: reversed)

def text : Gap → List Char
  | blanks reversed => reversed.reverse
  | breaks (some '\n') [] => [' ']
  | breaks (some '\n') reversed => reversed.reverse
  | breaks (some c) reversed => c :: reversed.reverse
  | breaks Option.none reversed => reversed.reverse

end Gap

end BattleTree.Yaml
