import BattleTree.Yaml.Gap

/-!
This module contains plain scalars: text without quotes, which ends where an indicator or a line
with less indentation follows.
-/

namespace BattleTree.Yaml

def isIndicator (c : Char) : Bool :=
  "-?:,[]\x7b\x7d#&*!|>'\"%@`".toList.contains c

def isFlowIndicator (c : Char) : Bool :=
  ",[]\x7b\x7d".toList.contains c

def startsPlain (flow : Bool) (c : Char) (cs : List Char) : Bool :=
  if isIndicator c then
    (c = '-' && !endsWord cs) || (!flow && (c = '?' || c = ':') && !endsWord cs)
  else
    !(isBlank c || isBreak c)

def endsPlain (flow : Bool) (c : Char) (cs : List Char) : Bool :=
  (c = ':' && endsWord cs) || (flow && isFlowIndicator c)

def isStrayColon (flow : Bool) (c : Char) (cs : List Char) : Bool :=
  flow && c = ':' && cs.head?.any fun d => d = '?' || isFlowIndicator d

/--
The rest of a plain scalar after the reversed `text` and a gap, with the place where it ends. Lines
go on at the column `floor` or further right, and in flow collections anywhere.
-/
def plainFrom (flow : Bool) (floor : Nat) :
    (text : List Char) → Gap → (line column : Nat) → List Char → Option (List Char × Cursor)
  | text, gap, line, column, [] => some (text.reverse, ⟨[], line, column, gap.isBroken⟩)
  | text, gap, line, column, c :: cs =>
    if isBreak c then
      plainFrom flow floor text (gap.addBreak c) (line + 1) 0 cs
    else if isBlank c then
      if c = '\t' && gap.isBroken && column < floor then none
      else plainFrom flow floor text (gap.addBlank c) line (column + 1) cs
    else if !gap.isEmpty && (c = '#' || (gap.isBroken && !flow && column < floor) ||
        (column = 0 && isMarker (c :: cs))) then
      some (text.reverse, ⟨c :: cs, line, column, gap.isBroken⟩)
    else if isStrayColon flow c cs then
      none
    else if endsPlain flow c cs then
      some (text.reverse, ⟨c :: cs, line, column, gap.isBroken⟩)
    else
      plainFrom flow floor (c :: (gap.text.reverse ++ text)) .none line (column + 1) cs

def plain? (flow : Bool) (floor : Nat) (k : Cursor) : Option (List Char × Cursor) :=
  match k.rest with
  | c :: cs =>
    if startsPlain flow c cs then plainFrom flow floor [] .none k.line k.column (c :: cs) else none
  | [] => none

end BattleTree.Yaml
