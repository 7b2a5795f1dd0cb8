import BattleTree.Program.Combinators
import BattleTree.Program.SyntaxTree

/-!
This module contains the parser of programs.

```text
node      := action | condition | sequence | fallback | decorator
sequence  := "S" "(" nodes ")"
fallback  := "F" "(" nodes ")"
nodes     := node ("::" node)*
action    := "A" "(" call ")"
condition := "C" "(" call ")"
decorator := "D" "(" call node ")"
call      := NAME ARG*
```

The first letter decides the kind of a node, so everything after the opening parenthesis is
committed. Blanks and comments may stand between all tokens, and nesting is limited to `maxDepth`
levels. Trees are annotated with the number of characters that were left when their nodes started,
which `Program.parse` turns into places.
-/

namespace BattleTree

def Arg.ofWord (word : List Char) : Arg :=
  match Reference.ofWord? word with
  | some reference => .ref reference
  | none => .word (String.ofList word)

namespace Scanner

variable {α : Type}

def comment : Scanner Unit := do
  tag ['/', '/']
  let _ ← takeWhile (· ≠ '\n')

def blanks : Scanner Unit := do
  let _ ← takeWhile1 .space Lexeme.isSpace

def gap : Scanner Unit := do
  let _ ← many (alt [blanks, comment])

def identifier : Scanner (List Char) := do
  let first ← takeWhile1 .takeWhile1 Lexeme.startsName
  let others ← takeWhile Lexeme.continuesName
  return first ++ others

def quoted : Scanner Arg := do
  char '"'
  let text ← cut (takeWhile (· ≠ '"') <* char '"')
  return .quoted (String.ofList text)

def word : Scanner Arg := do
  let word ← identifier
  not (gap *> char '(')
  return .ofWord word

def call : Scanner Call := do
  let name ← context Expected.name.text identifier
  let args ← many (gap *> alt [quoted, word])
  return { name := String.ofList name, args }

def «open» (letter : Char) : Scanner Unit := do
  char letter
  gap
  char '('

def close : Scanner Unit := do
  gap
  char ')'

def siblingsFrom (child : Scanner α) : (fuel : Nat) → Scanner (List α)
  | 0 => return []
  | fuel + 1 => fun cs =>
    match (gap *> tag [':', ':']) cs with
    | .ok ((), rest) =>
      (do
        let first ← cut (gap *> child)
        return first :: (← siblingsFrom child fuel)) rest
    | .error (.error _) => .ok ([], cs)
    | .error halt => .error halt

def siblings (child : Scanner α) : Scanner (List α) := fun cs =>
  siblingsFrom child cs.length cs

def nodes (child : Scanner α) : Scanner (List α) := fun cs =>
  match close cs with
  | .ok _ => .ok ([], cs)
  | .error _ =>
    (do
      let first ← gap *> child
      return first :: (← siblings child)) cs

def group (letter : Char) (inner : Scanner α) : Scanner (Nat × α) := do
  let mark ← remaining
  «open» letter
  let value ← cut (do gap; inner <* close)
  return (mark, value)

def decorated (child : Scanner α) : Scanner (Call × α) := do
  let call ← call
  let child ← gap *> child
  return (call, child)

def node : (levels : Nat) → Scanner (SyntaxTree Nat)
  -- Nesting is refused before it is known whether a node comes next.
  | 0 => fun cs => .error (.failure (.tooDeep cs))
  | levels + 1 =>
    context Expected.node.text <| alt
      [(fun (mark, children) => .sequence mark children) <$> group 'S' (nodes (node levels)),
       (fun (mark, children) => .fallback mark children) <$> group 'F' (nodes (node levels)),
       (fun (mark, call) => .action mark call) <$> group 'A' call,
       (fun (mark, call) => .condition mark call) <$> group 'C' call,
       (fun (mark, call, child) => .decorator mark call child) <$>
         group 'D' (decorated (node levels))]

def program : Scanner (SyntaxTree Nat) :=
  allConsuming (gap *> node maxDepth <* gap)

end Scanner

def Program.parse (text : String) : Except ParseError (SyntaxTree Span) :=
  let cs := text.toList
  match Scanner.program cs with
  | .ok (tree, _) => .ok (tree.map (Span.ofRemaining cs))
  | .error halt => .error (.ofRest cs halt.cause.rest halt.cause.expected)

end BattleTree
