/-!
This module contains the characters that blanks and names of programs are made of.
-/

namespace BattleTree.Lexeme

def isSpace (c : Char) : Bool :=
  c = ' ' || c = '\t' || c = '\r' || c = '\n'

def startsName (c : Char) : Bool :=
  c.isAlpha || c = '_'

def continuesName (c : Char) : Bool :=
  c.isAlphanum || c = '_'

end BattleTree.Lexeme
