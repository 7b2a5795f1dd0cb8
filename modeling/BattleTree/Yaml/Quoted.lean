import BattleTree.Yaml.Digit
import BattleTree.Yaml.Gap

/-!
This module contains quoted scalars. In single quotes a quote is written twice, and in double quotes
characters can be escaped.
-/

namespace BattleTree.Yaml

def shortEscapes : List (Char × Char) :=
  [('0', '\x00'), ('a', '\x07'), ('b', '\x08'), ('t', '\t'), ('\t', '\t'), ('n', '\n'),
   ('v', '\x0b'), ('f', '\x0c'), ('r', '\r'), ('e', '\x1b'), (' ', ' '), ('"', '"'), ('/', '/'),
   ('\\', '\\'), ('N', '\u0085'), ('_', '\u00a0'), ('L', '\u2028'), ('P', '\u2029')]

def longEscapes : List (Char × Nat) :=
  [('x', 2), ('u', 4), ('U', 8)]

def coded? (count : Nat) (cs : List Char) : Option Char := do
  guard (cs.length = count)
  let n ← digits? 16 cs
  if n.isValidChar then some (Char.ofNat n) else none

def escaped? : List Char → Option (Char × Nat)
  | [] => none
  | c :: cs =>
    match shortEscapes.lookup c, longEscapes.lookup c with
    | some d, _ => some (d, 1)
    | none, some count => do return (← coded? count (cs.take count), count + 1)
    | none, none => none

def quotedChar? (double : Bool) : List Char → Option (Option (Char × Nat))
  | [] => none
  | c :: cs =>
    if double then
      if c = '"' then some none
      else if c = '\\' then do
        let (d, length) ← escaped? cs
        return some (d, length + 1)
      else some (some (c, 1))
    else if c = '\'' then
      match cs with
      | '\'' :: _ => some (some ('\'', 2))
      | _ => some none
    else
      some (some (c, 1))

def escapedBreak? (double : Bool) : List Char → Option (List Char)
  | '\\' :: c :: cs => if double && isBreak c then some cs else none
  | _ => none

def quotedFrom (double : Bool) : (fuel : Nat) → (text : List Char) → Gap → (line column : Nat) →
    List Char → Option (List Char × Cursor)
  | 0, _, _, _, _, _ => none
  | _ + 1, _, _, _, _, [] => none
  | fuel + 1, text, gap, line, column, c :: cs =>
    if isBreak c then
      quotedFrom double fuel text (gap.addBreak c) (line + 1) 0 cs
    else if isBlank c then
      quotedFrom double fuel text (gap.addBlank c) line (column + 1) cs
    else if column = 0 && isMarker (c :: cs) then
      none
    else
      let text := gap.text.reverse ++ text
      match escapedBreak? double (c :: cs) with
      | some rest => quotedFrom double fuel text (.breaks none []) (line + 1) 0 rest
      | none =>
        match quotedChar? double (c :: cs) with
        | none => none
        | some none => some (text.reverse, ⟨cs, line, column + 1, false⟩)
        | some (some (d, length)) =>
          quotedFrom double fuel (d :: text) .none line (column + length) (cs.drop (length - 1))

def quoted? (k : Cursor) : Option (List Char × Cursor) :=
  match k.rest with
  | '"' :: cs => quotedFrom true (cs.length + 1) [] .none k.line (k.column + 1) cs
  | '\'' :: cs => quotedFrom false (cs.length + 1) [] .none k.line (k.column + 1) cs
  | _ => none

end BattleTree.Yaml
