/-!
This module contains places in a program text.
-/

namespace BattleTree

/-- A place in a text: the bytes before it, and its line and column, both counted from one. -/
structure Span where
  offset : Nat
  line : Nat
  column : Nat
  deriving DecidableEq, Repr, Inhabited

namespace Span

def start : Span :=
  { offset := 0, line := 1, column := 1 }

def next (p : Span) (c : Char) : Span :=
  if c = '\n' then
    { offset := p.offset + c.utf8Size, line := p.line + 1, column := 1 }
  else
    { offset := p.offset + c.utf8Size, line := p.line, column := p.column + 1 }

def after (text : List Char) : Span :=
  text.foldl next start

def ofRemaining (text : List Char) (remaining : Nat) : Span :=
  after (text.take (text.length - remaining))

def text (p : Span) : String :=
  s!"{p.line}:{p.column}"

theorem foldl_next_offset (p : Span) (text : List Char) :
    (text.foldl next p).offset = p.offset + (String.ofList text).utf8ByteSize := by
  induction text generalizing p with
  | nil => simp
  | cons c text ih =>
    have hnext : (p.next c).offset = p.offset + c.utf8Size := by
      unfold next
      split <;> rfl
    simp [ih, hnext, Nat.add_assoc]

theorem foldl_next_line (p : Span) (text : List Char) :
    (text.foldl next p).line = p.line + text.count '\n' := by
  induction text generalizing p with
  | nil => simp
  | cons c text ih =>
    rw [List.foldl_cons, ih, List.count_cons]
    by_cases h : c = '\n'
    · simp [next, h, Nat.add_assoc, Nat.add_comm 1]
    · simp [next, h]

end Span

end BattleTree
