import BattleTree.Program.Lexeme
import BattleTree.Program.ParseError

/-!
This module contains the combinators that scanners of texts are made of, and the errors that they
keep on the way: of several alternatives, the one that came farthest is to blame.
-/

namespace BattleTree

inductive ErrorKind where
  | tag
  | takeWhile1
  | space
  | not
  | alt
  | many
  | eof
  deriving DecidableEq, Repr

def ErrorKind.expected : ErrorKind → String
  | eof => Expected.endOfInput.text
  | tag => "`::`"
  | takeWhile1 => "a name"
  | alt => Expected.node.text
  | space | not | many => "valid syntax"

/-- The text that is left at an error, and what was expected there. Labels are never replaced. -/
structure GrammarError where
  rest : List Char
  expected : String
  labelled : Bool
  deriving DecidableEq, Repr

namespace GrammarError

def ofKind (rest : List Char) (kind : ErrorKind) : GrammarError :=
  { rest, expected := kind.expected, labelled := false }

def ofChar (rest : List Char) (c : Char) : GrammarError :=
  { rest, expected := (Expected.char c).text, labelled := false }

def tooDeep (rest : List Char) : GrammarError :=
  { rest, expected := Expected.shallower.text, labelled := true }

def append (_ : List Char) (_ : ErrorKind) (e : GrammarError) : GrammarError :=
  e

def or (e e' : GrammarError) : GrammarError :=
  if e'.rest.length ≤ e.rest.length then e' else e

def following (e : GrammarError) : Option GrammarError → GrammarError
  | none => e
  | some other => other.or e

def addContext (start : List Char) (label : String) (e : GrammarError) : GrammarError :=
  if !e.labelled && e.rest.length = start.length then
    { e with expected := label, labelled := true }
  else
    e

end GrammarError

/-- Why a scanner does not go on. Other alternatives are only tried after an `error`. -/
inductive Halt where
  | error (e : GrammarError)
  | failure (e : GrammarError)
  deriving DecidableEq, Repr

def Halt.cause : Halt → GrammarError
  | error e | failure e => e

def Halt.map (f : GrammarError → GrammarError) : Halt → Halt
  | error e => error (f e)
  | failure e => failure (f e)

abbrev Scanner := StateT (List Char) (Except Halt)

namespace Scanner

variable {α β : Type}

def giveUp (kind : ErrorKind) : Scanner α := fun cs =>
  .error (.error (.ofKind cs kind))

def remaining : Scanner Nat := fun cs =>
  .ok (cs.length, cs)

def char (c : Char) : Scanner Unit := fun cs =>
  match cs with
  | d :: rest => if d = c then .ok ((), rest) else .error (.error (.ofChar cs c))
  | [] => .error (.error (.ofChar cs c))

def tag (text : List Char) : Scanner Unit := fun cs =>
  if text.isPrefixOf cs then .ok ((), cs.drop text.length) else giveUp .tag cs

def takeWhile (p : Char → Bool) : Scanner (List Char) := fun cs =>
  .ok (cs.takeWhile p, cs.dropWhile p)

def takeWhile1 (kind : ErrorKind) (p : Char → Bool) : Scanner (List Char) := fun cs =>
  if (cs.takeWhile p).isEmpty then giveUp kind cs else takeWhile p cs

def altAfter (others : Option GrammarError) : List (Scanner α) → Scanner α
  | [] => fun cs =>
    .error (.error (others.elim (.ofKind cs .alt) (.append cs .alt)))
  | p :: ps => fun cs =>
    match p cs with
    | .error (.error e) => altAfter (some (e.following others)) ps cs
    | outcome => outcome

def alt (ps : List (Scanner α)) : Scanner α :=
  altAfter none ps

def cut (p : Scanner α) : Scanner α := fun cs =>
  match p cs with
  | .error halt => .error (.failure halt.cause)
  | outcome => outcome

def context (label : String) (p : Scanner α) : Scanner α := fun cs =>
  match p cs with
  | .error halt => .error (halt.map (.addContext cs label))
  | outcome => outcome

def not (p : Scanner α) : Scanner Unit := fun cs =>
  match p cs with
  | .ok _ => giveUp .not cs
  | .error (.error _) => .ok ((), cs)
  | .error halt => .error halt

def manyFrom (p : Scanner α) : (fuel : Nat) → Scanner (List α)
  | 0 => return []
  | fuel + 1 => fun cs =>
    match p cs with
    | .ok (first, rest) =>
      -- A scanner that reads nothing could be repeated for ever.
      if rest.length = cs.length then giveUp .many cs
      else (do return first :: (← manyFrom p fuel)) rest
    | .error (.error _) => .ok ([], cs)
    | .error halt => .error halt

def many (p : Scanner α) : Scanner (List α) := fun cs =>
  manyFrom p (cs.length + 1) cs

def allConsuming (p : Scanner α) : Scanner α := do
  let value ← p
  fun rest => if rest.isEmpty then .ok (value, rest) else giveUp .eof rest

end Scanner

end BattleTree
