import BattleTree.Yaml.Tree

/-!
This module contains the reading of aliases and of what can stand in front of a node.
-/

namespace BattleTree.Yaml

def endsName (cs : List Char) : Bool :=
  endsWord cs || cs.head?.any fun c => "?:,]\x7d%@`".toList.contains c

def name? (cs : List Char) : Option (String × List Char) :=
  let name := cs.takeWhile isNameChar
  let rest := cs.dropWhile isNameChar
  if !name.isEmpty && endsName rest then some (String.ofList name, rest) else none

def Cursor.upTo (k : Cursor) (rest : List Char) : Cursor :=
  k.step (k.rest.length - rest.length)

def property? (flow : Bool) (p : Properties) (k : Cursor) : Option (Option (Properties × Cursor)) :=
  match k.rest with
  | '&' :: cs =>
    match p.anchor, name? cs with
    | none, some (name, rest) => some (some ({ p with anchor := some name }, k.upTo rest))
    | _, _ => none
  | '!' :: cs =>
    match p.tag, tag? cs with
    | none, some (tag, rest) =>
      if endsTag flow rest then some (some ({ p with tag := some tag }, k.upTo rest)) else none
    | _, _ => none
  | _ => some none

end BattleTree.Yaml
