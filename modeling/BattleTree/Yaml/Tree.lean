import BattleTree.Yaml.Node
import BattleTree.Yaml.Tag

/-!
This module contains nodes as they are written, and the nodes that they stand for. Aliases are
resolved in two steps: names become numbers, and numbers become nodes.
-/

namespace BattleTree.Yaml

structure Properties where
  anchor : Option String
  tag : Option Tag
  deriving DecidableEq, Repr

namespace Properties

def empty : Properties :=
  { anchor := none, tag := none }

def isEmpty (p : Properties) : Bool :=
  p.anchor.isNone && p.tag.isNone

def tagText? (handles : Handles) (p : Properties) : Option (Option String) :=
  p.tag.mapM (Tag.text? handles)

end Properties

inductive Tree where
  | scalar (properties : Properties) (style : Style) (text : String)
  | sequence (properties : Properties) (items : List Tree)
  | mapping (properties : Properties) (entries : List (Tree × Tree))
  | alias (name : String)
  deriving Repr

structure Anchors where
  numbers : List (String × Nat)
  targets : List (Nat × Node)
  deriving Repr

namespace Anchors

def empty : Anchors :=
  { numbers := [], targets := [] }

/--
Number a node if it has a name. The number is the count of names before, also if the name is one of
them. So nodes can share a number, and then it stands for the last one of them.
-/
def add (p : Properties) (target : Nat → Node) (anchors : Anchors) : Anchors :=
  match p.anchor with
  | none => anchors
  | some name =>
    let number := anchors.numbers.length
    { numbers := (name, number) :: anchors.numbers.filter (fun entry => entry.1 ≠ name)
      targets := (number, target number) :: anchors.targets }

end Anchors

namespace Tree

def absent (properties : Properties) : Tree :=
  scalar properties .plain ""

mutual

def number (handles : Handles) (anchors : Anchors) : Tree → Option (Node × Anchors)
  | scalar p style text => do
    let node := .scalar (← p.tagText? handles) style text
    return (node, anchors.add p fun _ => node)
  | sequence p items => do
    let _ ← p.tagText? handles
    let (items, anchors) ← numberItems handles (anchors.add p .alias) items
    return (.sequence items, anchors)
  | mapping p entries => do
    let _ ← p.tagText? handles
    let (entries, anchors) ← numberEntries handles (anchors.add p .alias) entries
    return (.mapping entries, anchors)
  | .alias name => do return (.alias (← anchors.numbers.lookup name), anchors)

def numberItems (handles : Handles) (anchors : Anchors) : List Tree → Option (List Node × Anchors)
  | [] => some ([], anchors)
  | t :: ts => do
    let (node, anchors) ← t.number handles anchors
    let (nodes, anchors) ← numberItems handles anchors ts
    return (node :: nodes, anchors)

def numberEntries (handles : Handles) (anchors : Anchors) : List (Tree × Tree) →
    Option (List (Node × Node) × Anchors)
  | [] => some ([], anchors)
  | (key, value) :: entries => do
    let (key, anchors) ← key.number handles anchors
    let (value, anchors) ← value.number handles anchors
    let (entries, anchors) ← numberEntries handles anchors entries
    return ((key, value) :: entries, anchors)

end

def node? (handles : Handles) (t : Tree) : Option Node := do
  let (node, anchors) ← t.number handles .empty
  return node.expand anchors.targets

end Tree

end BattleTree.Yaml
