import BattleTree.Program.Position
import BattleTree.Text.Blank

/-!
This module contains the errors of malformed program texts.
-/

namespace BattleTree

def maxDepth : Nat := 64

inductive Expected where
  | node
  | name
  | char (c : Char)
  | endOfInput
  | shallower
  deriving DecidableEq, Repr

def Expected.text : Expected → String
  | node => "a node (`A(`, `C(`, `S(`, `F(` or `D(`)"
  | name => "an atomic name"
  | char c => "`" ++ c.toString ++ "`"
  | endOfInput => "end of input"
  | shallower => s!"nesting at most {maxDepth} deep"

def quotedLength : Nat := 16

def firstWord? (rest : List Char) : Option String :=
  match (rest.dropWhile Text.isBlank).takeWhile fun c => !Text.isBlank c with
  | [] => none
  | word => some (String.ofList (word.take quotedLength))

structure ParseError where
  span : Span
  expected : String
  found : String
  deriving DecidableEq, Repr

namespace ParseError

def ofRest (text rest : List Char) (expected : String) : ParseError :=
  { span := Span.ofRemaining text rest.length
    expected
    found := (firstWord? rest).getD "end of input" }

def message (e : ParseError) : String :=
  s!"parse error at {e.span.text}: expected {e.expected}, found {e.found}"

end ParseError

end BattleTree
