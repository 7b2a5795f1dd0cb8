/-!
This module contains places in a YAML text and the skipping of blanks and comments. Line breaks are
unified before anything is read.
-/

namespace BattleTree.Yaml

def isBlank (c : Char) : Bool :=
  c = ' ' || c = '\t'

def isBreak (c : Char) : Bool :=
  c = '\n' || c = '\u2028' || c = '\u2029'

def endsWord : List Char → Bool
  | [] => true
  | c :: _ => isBlank c || isBreak c

def isPrintable (c : Char) : Bool :=
  let n := c.toNat
  n = 0x09 || n = 0x0a || n = 0x0d || (0x20 ≤ n && n ≤ 0x7e) || n = 0x85 ||
    (0xa0 ≤ n && n ≤ 0xfffd) || 0x10000 ≤ n

def unifyBreaks : List Char → List Char
  | [] => []
  | '\r' :: '\n' :: cs => '\n' :: unifyBreaks cs
  | c :: cs => (if c = '\r' || c = '\u0085' then '\n' else c) :: unifyBreaks cs

structure Cursor where
  rest : List Char
  line : Nat
  column : Nat
  fresh : Bool

namespace Cursor

def start (text : List Char) : Cursor :=
  { rest := text, line := 0, column := 0, fresh := true }

def step (k : Cursor) (count : Nat) : Cursor :=
  { k with rest := k.rest.drop count, column := k.column + count, fresh := false }

/--
Skip blanks, breaks and comments. Tabs are no indentation, so they count as blanks only inside a
line or a flow collection. A byte order mark can start any line, and it takes a column.
-/
def skipFrom (flow comment : Bool) (line column : Nat) (fresh : Bool) : List Char → Cursor
  | [] => ⟨[], line, column, fresh⟩
  | c :: cs =>
    if isBreak c then
      skipFrom flow false (line + 1) 0 (fresh || !flow) cs
    else if comment || c = '#' then
      skipFrom flow true line (column + 1) fresh cs
    else if c = ' ' || (c = '\t' && (flow || !fresh)) || (c = '\uFEFF' && column = 0) then
      skipFrom flow false line (column + 1) fresh cs
    else
      ⟨c :: cs, line, column, fresh⟩

def skip (flow : Bool) (k : Cursor) : Cursor :=
  skipFrom flow false k.line k.column k.fresh k.rest

end Cursor

def isMarker : List Char → Bool
  | '-' :: '-' :: '-' :: cs => endsWord cs
  | '.' :: '.' :: '.' :: cs => endsWord cs
  | _ => false

namespace Cursor

def atEnd (k : Cursor) : Bool :=
  k.rest.isEmpty || (k.column = 0 && isMarker k.rest)

def atDash (k : Cursor) : Bool :=
  match k.rest with
  | '-' :: cs => k.fresh && endsWord cs
  | _ => false

end Cursor

end BattleTree.Yaml
