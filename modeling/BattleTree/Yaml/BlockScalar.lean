import BattleTree.Yaml.Cursor

/-!
This module contains block scalars: indented lines after `|`, which keeps line breaks, or `>`, which
folds them.
-/

namespace BattleTree.Yaml

inductive Chomping where
  | strip
  | clip
  | keep
  deriving DecidableEq, Repr

structure BlockHeader where
  literal : Bool
  chomping : Chomping
  indent : Option Nat
  deriving DecidableEq, Repr

namespace BlockHeader

def chomping? : List Char → Option (Chomping × List Char)
  | '+' :: cs => some (.keep, cs)
  | '-' :: cs => some (.strip, cs)
  | _ => none

def indent? : List Char → Option (Nat × List Char)
  | c :: cs => if '1' ≤ c ∧ c ≤ '9' then some (c.toNat - '0'.toNat, cs) else none
  | [] => none

def read (literal : Bool) (cs : List Char) : BlockHeader × List Char :=
  match chomping? cs with
  | some (chomping, cs) =>
    match indent? cs with
    | some (n, cs) => (⟨literal, chomping, some n⟩, cs)
    | none => (⟨literal, chomping, none⟩, cs)
  | none =>
    match indent? cs with
    | some (n, cs) =>
      match chomping? cs with
      | some (chomping, cs) => (⟨literal, chomping, some n⟩, cs)
      | none => (⟨literal, .clip, some n⟩, cs)
    | none => (⟨literal, .clip, none⟩, cs)

end BlockHeader

def lines : List Char → List (List Char)
  | [] => []
  | c :: cs =>
    if isBreak c then
      [c] :: lines cs
    else
      match lines cs with
      | [] => [[c]]
      | line :: rest => (c :: line) :: rest

def indentation (line : List Char) : Nat :=
  (line.takeWhile (· = ' ')).length

def detectIndent (least : Nat) : List (List Char) → Option Nat
  | [] => some least
  | line :: rest =>
    let indent := max least (indentation line)
    match line.dropWhile (· = ' ') with
    | [] => some indent
    | c :: _ =>
      if c = '\t' then none
      else if isBreak c then detectIndent indent rest
      else some indent

structure BlockState where
  reversed : List Char
  break_ : Option Char
  empty : List Char
  blank : Bool

namespace BlockState

def initial : BlockState :=
  { reversed := [], break_ := none, empty := [], blank := false }

def separator (s : BlockState) (literal blank : Bool) : List Char :=
  if !literal && s.break_ = some '\n' && !s.blank && !blank then
    if s.empty.isEmpty then [' '] else s.empty.reverse
  else
    s.break_.toList ++ s.empty.reverse

def add (s : BlockState) (literal : Bool) (line : List Char) : BlockState :=
  let blank := line.head?.any isBlank
  let content := line.takeWhile fun c => !isBreak c
  { reversed := content.reverse ++ (s.separator literal blank).reverse ++ s.reversed
    break_ := (line.dropWhile fun c => !isBreak c).head?
    empty := []
    blank }

def text (s : BlockState) (chomping : Chomping) : List Char :=
  let tail := match chomping with
    | .strip => []
    | .clip => s.break_.toList
    | .keep => s.break_.toList ++ s.empty.reverse
  s.reversed.reverse ++ tail

end BlockState

def blockLines (literal : Bool) (indent : Nat) : BlockState → (count : Nat) → List (List Char) →
    Option (BlockState × Nat × List (List Char))
  | s, count, [] => some (s, count, [])
  | s, count, line :: rest =>
    let depth := min indent (indentation line)
    match line.drop depth with
    | [] => some (s, count + 1, rest)
    | c :: cs =>
      if depth < indent && c = '\t' then none
      else if isBreak c then
        blockLines literal indent { s with empty := c :: s.empty } (count + 1) rest
      else if depth = indent then
        blockLines literal indent (s.add literal (c :: cs)) (count + 1) rest
      else some (s, count, line :: rest)

def afterHeader? (cs : List Char) : Option (List Char) :=
  match cs.dropWhile isBlank with
  | [] => some []
  | c :: cs =>
    if isBreak c then some cs
    else if c = '#' then some ((cs.dropWhile fun c => !isBreak c).drop 1)
    else none

def blockScalar? (literal : Bool) (floor line : Nat) (cs : List Char) :
    Option (List Char × Cursor) := do
  let (header, cs) := BlockHeader.read literal cs
  let body := lines (← afterHeader? cs)
  let indent ← match header.indent with
    | some n => some (floor - 1 + n)
    | none => detectIndent (max floor 1) body
  let (s, count, rest) ← blockLines literal indent .initial 0 body
  return (s.text header.chomping,
    { rest := rest.flatten, line := line + 1 + count, column := 0, fresh := true })

end BattleTree.Yaml
