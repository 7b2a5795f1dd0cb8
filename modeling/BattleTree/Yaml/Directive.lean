import BattleTree.Yaml.Tag

/-!
This module contains directives, lines in front of a document that state the version of the format
or declare handles of tags.
-/

namespace BattleTree.Yaml

inductive Directive where
  | version (major minor : Nat)
  | handle (name start : String)
  deriving DecidableEq, Repr

def isLineOver (cs : List Char) : Bool :=
  match cs.dropWhile isBlank with
  | [] => true
  | c :: _ => c = '#'

def versionNumber? (cs : List Char) : Option (Nat × List Char) := do
  let digits := cs.takeWhile Char.isDigit
  guard (digits.length ≤ 9)
  return (← digits? 10 digits, cs.dropWhile Char.isDigit)

def handle? : List Char → Option (String × List Char)
  | '!' :: cs =>
    match cs.takeWhile isNameChar, cs.dropWhile isNameChar with
    | name, '!' :: rest => some (String.ofList ('!' :: name ++ ['!']), rest)
    | [], rest => some ("!", rest)
    | _, _ => none
  | _ => none

namespace Directive

def version? (cs : List Char) : Option Directive := do
  let (major, rest) ← versionNumber? (cs.dropWhile isBlank)
  match rest with
  | '.' :: rest => do
    let (minor, rest) ← versionNumber? rest
    guard (isLineOver rest)
    return version major minor
  | _ => none

def handleOf? (cs : List Char) : Option Directive := do
  let (name, rest) ← handle? (cs.dropWhile isBlank)
  guard (rest.head?.any isBlank)
  let (start, rest) ← tagText? isVerbatimTagChar (rest.dropWhile isBlank)
  guard (endsWord rest && isLineOver rest)
  return handle name start

def ofLine? (line : List Char) : Option Directive := do
  let rest := line.dropWhile isNameChar
  guard (endsWord rest)
  match String.ofList (line.takeWhile isNameChar) with
  | "YAML" => version? rest
  | "TAG" => handleOf? rest
  | _ => none

end Directive

structure Header where
  hasVersion : Bool
  handles : Handles
  deriving DecidableEq, Repr

namespace Header

def empty : Header :=
  { hasVersion := false, handles := [] }

def add (h : Header) : Directive → Option Header
  | .version major minor =>
    if !h.hasVersion && major = 1 && (minor = 1 || minor = 2) then
      some { h with hasVersion := true }
    else
      none
  | .handle name start =>
    if (h.handles.lookup name).isNone then
      some { h with handles := (name, start) :: h.handles }
    else
      none

end Header

def Cursor.atDirective (k : Cursor) : Bool :=
  k.column = 0 && k.rest.head? = some '%'

def Cursor.nextLine (k : Cursor) : Cursor :=
  { rest := (k.rest.dropWhile fun c => !isBreak c).drop 1
    line := k.line + 1
    column := 0
    fresh := false }

def directives? : (fuel : Nat) → Header → Cursor → Option (Header × Cursor)
  | 0, _, _ => none
  | fuel + 1, h, k =>
    let k := k.skip false
    if k.atDirective then do
      let line := (k.rest.drop 1).takeWhile fun c => !isBreak c
      let h ← h.add (← Directive.ofLine? line)
      directives? fuel h k.nextLine
    else
      some (h, k)

end BattleTree.Yaml
