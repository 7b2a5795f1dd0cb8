import BattleTree.Program.SyntaxTree

/-!
This module contains the canonical text of programs: one space between a name and its arguments, and
` :: ` between children.
-/

namespace BattleTree

def Arg.text : Arg → String
  | word text => text
  | quoted text => "\"" ++ text ++ "\""
  | ref reference => reference.text

def Call.text (call : Call) : String :=
  call.args.foldl (fun text arg => text ++ " " ++ arg.text) call.name

namespace SyntaxTree

variable {σ : Type}

mutual

def text : SyntaxTree σ → String
  | sequence _ children => "S(" ++ textAll children ++ ")"
  | fallback _ children => "F(" ++ textAll children ++ ")"
  | action _ call => "A(" ++ call.text ++ ")"
  | condition _ call => "C(" ++ call.text ++ ")"
  | decorator _ call child => "D(" ++ call.text ++ " " ++ child.text ++ ")"

def textAll : List (SyntaxTree σ) → String
  | [] => ""
  | [t] => t.text
  | t :: u :: us => t.text ++ " :: " ++ textAll (u :: us)

end

end SyntaxTree

end BattleTree
