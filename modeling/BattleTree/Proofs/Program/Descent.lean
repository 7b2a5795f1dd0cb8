import BattleTree.Program.Parser

/-!
This module contains the parser of programs by recursive descent. It looks at the next character to
choose between alternatives, so that it has no need to try them, and it stops at the first error.
-/

namespace BattleTree

namespace Lexeme

def skipFrom : (inComment : Bool) → List Char → List Char
  | _, [] => []
  | true, c :: cs => skipFrom (c ≠ '\n') cs
  | false, '/' :: '/' :: cs => skipFrom true cs
  | false, c :: cs => if isSpace c then skipFrom false cs else c :: cs

def skip (cs : List Char) : List Char :=
  skipFrom false cs

def name? : List Char → Option (List Char × List Char)
  | c :: cs =>
    if startsName c then some (c :: cs.takeWhile continuesName, cs.dropWhile continuesName)
    else none
  | [] => none

def quoted? (cs : List Char) : Option (List Char × List Char) :=
  match cs.dropWhile (· ≠ '"') with
  | _ :: rest => some (cs.takeWhile (· ≠ '"'), rest)
  | [] => none

def opens (cs : List Char) : Bool :=
  (skip cs).head? = some '('

def word? (cs : List Char) : Option (List Char × List Char) := do
  let (word, rest) ← name? cs
  if opens rest then none else some (word, rest)

theorem length_skipFrom_le (inComment : Bool) (cs : List Char) :
    (skipFrom inComment cs).length ≤ cs.length := by
  fun_induction skipFrom inComment cs with
  | case1 => simp
  | case2 _ _ ih => exact Nat.le_succ_of_le ih
  | case3 _ ih => exact Nat.le_succ_of_le (Nat.le_succ_of_le ih)
  | case4 _ _ _ _ ih => exact Nat.le_succ_of_le ih
  | case5 => simp

end Lexeme

structure Failure where
  rest : List Char
  expected : Expected
  deriving DecidableEq, Repr

def ParseError.ofFailure (text : List Char) (failure : Failure) : ParseError :=
  .ofRest text failure.rest failure.expected.text

namespace Parser

abbrev Parsed (α : Type) := α × List Char

abbrev Reader (α : Type) := List Char → Except Failure (Parsed α)

def argsFrom : (fuel : Nat) → Reader (List Arg)
  | 0, cs => .ok ([], cs)
  | fuel + 1, cs =>
    match Lexeme.skip cs with
    | '"' :: body =>
      match Lexeme.quoted? body with
      | some (text, rest) => do
        let (args, rest) ← argsFrom fuel rest
        return (.quoted (String.ofList text) :: args, rest)
      | none => .error ⟨[], .char '"'⟩
    | start =>
      match Lexeme.word? start with
      | some (word, rest) => do
        let (args, rest) ← argsFrom fuel rest
        return (Arg.ofWord word :: args, rest)
      | none => .ok ([], cs)

def args : Reader (List Arg) := fun cs =>
  argsFrom cs.length cs

def call : Reader Call := fun cs =>
  match Lexeme.name? cs with
  | some (name, rest) => do
    let (args, rest) ← args rest
    return ({ name := String.ofList name, args }, rest)
  | none => .error ⟨cs, .name⟩

def expect (c : Char) (cs : List Char) : Except Failure (List Char) :=
  match Lexeme.skip cs with
  | d :: rest => if d = c then .ok rest else .error ⟨d :: rest, .char c⟩
  | [] => .error ⟨[], .char c⟩

def siblingsFrom {α : Type} (child : Reader α) : (fuel : Nat) → Reader (List α)
  | 0, cs => .ok ([], cs)
  | fuel + 1, cs =>
    match Lexeme.skip cs with
    | ':' :: ':' :: start => do
      let (first, rest) ← child (Lexeme.skip start)
      let (others, rest) ← siblingsFrom child fuel rest
      return (first :: others, rest)
    | _ => .ok ([], cs)

def children {α : Type} (child : Reader α) (cs : List Char) :
    Except Failure (Parsed (List α)) :=
  match Lexeme.skip cs with
  -- The closing parenthesis is the only sign of an empty list.
  | ')' :: _ => .ok ([], cs)
  | start => do
    let (first, rest) ← child start
    let (others, rest) ← siblingsFrom child rest.length rest
    return (first :: others, rest)

inductive Kind where
  | sequence
  | fallback
  | action
  | condition
  | decorator
  deriving DecidableEq, Repr

def Kind.ofChar? : Char → Option Kind
  | 'S' => some .sequence
  | 'F' => some .fallback
  | 'A' => some .action
  | 'C' => some .condition
  | 'D' => some .decorator
  | _ => none

def body (child : Reader (SyntaxTree Nat)) (kind : Kind) (mark : Nat) (cs : List Char) :
    Except Failure (Parsed (SyntaxTree Nat)) :=
  match kind with
  | .sequence => do
    let (children, rest) ← children child cs
    return (.sequence mark children, rest)
  | .fallback => do
    let (children, rest) ← children child cs
    return (.fallback mark children, rest)
  | .action => do
    let (call, rest) ← call cs
    return (.action mark call, rest)
  | .condition => do
    let (call, rest) ← call cs
    return (.condition mark call, rest)
  | .decorator => do
    let (call, rest) ← call cs
    let (child, rest) ← child (Lexeme.skip rest)
    return (.decorator mark call child, rest)

def node : (levels : Nat) → Reader (SyntaxTree Nat)
  -- Nesting is refused before it is known whether a node comes next.
  | 0, cs => .error ⟨cs, .shallower⟩
  | levels + 1, cs =>
    match cs with
    | [] => .error ⟨cs, .node⟩
    | letter :: rest =>
      match Kind.ofChar? letter with
      | none => .error ⟨cs, .node⟩
      | some kind => do
        let start ← expect '(' rest
        let (tree, rest) ← body (node levels) kind cs.length (Lexeme.skip start)
        let rest ← expect ')' rest
        return (tree, rest)

def program (text : List Char) : Except Failure (SyntaxTree Nat) := do
  let (tree, rest) ← node maxDepth (Lexeme.skip text)
  match Lexeme.skip rest with
  | [] => return tree
  | rest => throw ⟨rest, .endOfInput⟩

end Parser

end BattleTree
