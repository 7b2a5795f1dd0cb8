import BattleTree.Yaml.BlockScalar
import BattleTree.Yaml.Directive
import BattleTree.Yaml.Plain
import BattleTree.Yaml.Property
import BattleTree.Yaml.Quoted

/-!
This module contains the reader of documents. The content of a node starts at the column `floor` or
further right. Keys stand on one line, unless a question mark announces them. Every function gives
none for malformed text.
-/

namespace BattleTree.Yaml

abbrev Read := Option (Tree × Cursor)

def maxKeySize : Nat := 1024

def octetsBetween (start k : Cursor) : Nat :=
  (String.ofList (start.rest.take (k.column - start.column))).utf8ByteSize

def atom? (flow : Bool) (floor : Nat) (p : Properties) (k : Cursor) : Read :=
  match k.rest with
  | '*' :: cs =>
    match name? cs with
    | some (name, rest) => if p.isEmpty then some (.alias name, k.upTo rest) else none
    | none => none
  | c :: _ =>
    if c = '"' || c = '\'' then do
      let (text, k) ← quoted? k
      return (.scalar p .quoted (String.ofList text), k)
    else do
      let (text, k) ← plain? flow floor k
      return (.scalar p .plain (String.ofList text), k)
  | [] => none

def endsFlowNode (k : Cursor) : Bool :=
  match k.rest with
  | c :: _ => c = ',' || c = ']' || c = '}'
  | [] => true

def atColon (flow : Bool) (k : Cursor) : Bool :=
  match k.rest with
  | ':' :: cs => flow || endsWord cs
  | _ => false

def afterQuestion? (flow : Bool) (k : Cursor) : Option Cursor :=
  match k.rest with
  | '?' :: cs =>
    if flow then some (k.step 1)
    else if k.fresh && endsWord cs then some { k.step 1 with fresh := true }
    else none
  | _ => none

def afterColon? (flow : Bool) (start k : Cursor) : Option Cursor :=
  let k := k.skip flow
  match k.rest with
  | ':' :: cs =>
    if k.line = start.line && octetsBetween start k ≤ maxKeySize && (flow || endsWord cs) then
      some (k.step 1)
    else
      none
  | _ => none

mutual

def flowNode : (fuel floor : Nat) → Properties → Cursor → Read
  | 0, _, _, _ => none
  | fuel + 1, floor, p, k =>
    let k := k.skip true
    if k.atEnd then
      none
    else
      match property? true p k with
      | none => none
      | some (some (p, k)) => flowNode fuel floor p k
      | some none =>
        match k.rest with
        | '{' :: _ => do
          let (entries, k) ← flowEntries fuel floor (k.step 1)
          return (.mapping p entries, k)
        | '[' :: _ => do
          let (items, k) ← flowItems fuel floor (k.step 1)
          return (.sequence p items, k)
        | _ =>
          if !p.isEmpty && (endsFlowNode k || atColon true k) then some (.absent p, k)
          else atom? true floor p k

def flowValue : (fuel floor : Nat) → Cursor → Read
  | 0, _, _ => none
  | fuel + 1, floor, k =>
    if endsFlowNode (k.skip true) then some (.absent .empty, k.skip true)
    else flowNode fuel floor .empty k

def flowKey : (fuel floor : Nat) → Cursor → Option (Tree × Option Cursor × Cursor)
  | 0, _, _ => none
  | fuel + 1, floor, k =>
    match afterQuestion? true k with
    | some k => do
      let k := k.skip true
      let (key, k) ← if atColon true k then some (.absent .empty, k) else flowValue fuel floor k
      let k := k.skip true
      return (key, if atColon true k then some (k.step 1) else none, k)
    | none => do
      let (key, after) ← flowNode fuel floor .empty k
      return (key, afterColon? true k after, after)

def flowEntries : (fuel floor : Nat) → Cursor → Option (List (Tree × Tree) × Cursor)
  | 0, _, _ => none
  | fuel + 1, floor, k =>
    let k := k.skip true
    match k.rest with
    | '}' :: _ => some ([], k.step 1)
    | _ => do
      let (key, colon, after) ← flowKey fuel floor k
      let (value, after) ← match colon with
        | some after => flowValue fuel floor after
        | none => some (.absent .empty, after)
      let after := after.skip true
      match after.rest with
      | ',' :: _ => do
        let (entries, after) ← flowEntries fuel floor (after.step 1)
        return ((key, value) :: entries, after)
      | '}' :: _ => some ([(key, value)], after.step 1)
      | _ => none

/--
An entry inside a flow sequence, after its question mark. If the key is missing, the mark that
stands in its place is dropped.
-/
def flowPair : (fuel floor : Nat) → Cursor → Option ((Tree × Tree) × Cursor)
  | 0, _, _ => none
  | fuel + 1, floor, k => do
    let k := k.skip true
    let (key, k) ←
      if k.rest.head?.any fun c => c = ':' || c = ',' then some (.absent .empty, k.step 1)
      else flowNode fuel floor .empty k
    let k := k.skip true
    let (value, k) ←
      if atColon true k then flowValue fuel floor (k.step 1) else some (.absent .empty, k)
    return ((key, value), k)

def flowItems : (fuel floor : Nat) → Cursor → Option (List Tree × Cursor)
  | 0, _, _ => none
  | fuel + 1, floor, k =>
    let k := k.skip true
    match k.rest with
    | ']' :: _ => some ([], k.step 1)
    | _ => do
      let (item, after) ← match afterQuestion? true k with
        | some after => do
          let (entry, after) ← flowPair fuel floor after
          pure (.mapping .empty [entry], after)
        | none => do
          let (item, after) ← flowNode fuel floor .empty k
          match afterColon? true k after with
          | some after => do
            let (value, after) ← flowValue fuel floor after
            pure (.mapping .empty [(item, value)], after)
          | none => pure (item, after)
      let after := after.skip true
      match after.rest with
      | ',' :: _ => do
        let (items, after) ← flowItems fuel floor (after.step 1)
        return (item :: items, after)
      | ']' :: _ => some ([item], after.step 1)
      | _ => none

end

def inlineNode : (fuel floor : Nat) → Properties → Cursor → Read
  | 0, _, _, _ => none
  | fuel + 1, floor, p, k =>
    match property? false p k with
    | none => none
    | some (some (p, k)) => inlineNode fuel floor p (k.skip false)
    | some none =>
      match k.rest with
      | '{' :: _ | '[' :: _ => flowNode (fuel + 1) floor p k
      | _ =>
        if !p.isEmpty && atColon false k then some (.absent p, k) else atom? false floor p k

def key? (fuel floor : Nat) (k : Cursor) : Read := do
  guard k.fresh
  let (key, after) ← inlineNode fuel floor .empty k
  return (key, ← afterColon? false k after)

def startsEntry (fuel floor : Nat) (k : Cursor) : Bool :=
  (afterQuestion? false k).isSome || (key? fuel floor k).isSome

def atBlockScalar (k : Cursor) : Bool :=
  match k.rest with
  | c :: _ => c = '|' || c = '>'
  | [] => false

mutual

def blockNode : (fuel floor : Nat) → (inMapping : Bool) → Properties → Cursor → Read
  | 0, _, _, _, _ => none
  | fuel + 1, floor, inMapping, p, k =>
    let k := k.skip false
    let besideParent := !k.atEnd && k.column + 1 = floor
    if besideParent && inMapping && k.atDash then do
      let (items, k) ← blockItems fuel k
      return (.sequence p items, k)
    else if (k.atEnd || k.column < floor) && !(besideParent && atBlockScalar k) then
      some (.absent p, k)
    else if k.atDash then do
      let (items, k) ← blockItems fuel k
      return (.sequence p items, k)
    else if startsEntry fuel floor k then do
      let (entries, k) ← blockEntries fuel k
      return (.mapping p entries, k)
    else
      match property? false p k with
      | none => none
      | some (some (p, k)) => blockNode fuel floor inMapping p k
      | some none =>
        match k.rest with
        | c :: cs =>
          if c = '|' || c = '>' then do
            let (text, k) ← blockScalar? (c = '|') floor k.line cs
            let style := if c = '|' then Style.literal else .folded
            return (.scalar p style (String.ofList text), k)
          else
            inlineNode fuel floor p k
        | [] => none

def blockEntry : (fuel : Nat) → Cursor → Option ((Tree × Tree) × Cursor)
  | 0, _ => none
  | fuel + 1, k =>
    match afterQuestion? false k with
    | some after => do
      let (key, after) ← blockNode fuel (k.column + 1) true .empty after
      let after := after.skip false
      if after.column = k.column && after.fresh && atColon false after then
        let start := { after.step 1 with fresh := true }
        let (value, after) ← blockNode fuel (k.column + 1) true .empty start
        return ((key, value), after)
      else
        return ((key, .absent .empty), after)
    | none => do
      let (key, after) ← key? fuel (k.column + 1) k
      let (value, after) ← blockNode fuel (k.column + 1) true .empty after
      return ((key, value), after)

def blockEntries : (fuel : Nat) → Cursor → Option (List (Tree × Tree) × Cursor)
  | 0, _ => none
  | fuel + 1, k => do
    let (entry, after) ← blockEntry fuel k
    let after := after.skip false
    if !after.atEnd && after.column = k.column then
      let (entries, after) ← blockEntries fuel after
      return (entry :: entries, after)
    else
      return ([entry], after)

def blockItems : (fuel : Nat) → Cursor → Option (List Tree × Cursor)
  | 0, _ => none
  | fuel + 1, k => do
    let (item, after) ← blockNode fuel (k.column + 1) false .empty { k.step 1 with fresh := true }
    let after := after.skip false
    if after.atDash && !after.atEnd && after.column = k.column then
      let (items, after) ← blockItems fuel after
      return (item :: items, after)
    else
      return ([item], after)

end

def isOver : (fuel : Nat) → Cursor → Bool
  | 0, _ => false
  | fuel + 1, k =>
    let k := k.skip false
    match k.rest with
    | [] => true
    | c :: _ => c = '.' && k.atEnd && isOver fuel (k.step 3)

def afterMarker? (k : Cursor) : Option Cursor :=
  match k.rest with
  | '-' :: _ => if k.atEnd then some (k.step 3) else none
  | _ => none

def content? (fuel : Nat) (k : Cursor) : Option (Handles × Cursor) :=
  if k.atDirective then do
    let (header, k) ← directives? fuel .empty k
    return (header.handles ++ standardHandles, ← afterMarker? k)
  else do
    return (standardHandles, ← if k.atEnd then afterMarker? k else some k)

/--
Read a text with one document at most. A text without any content has no node, which is something
else than a node that is not written out.
-/
def read? (text : String) : Option (Option Node) := do
  let cs := text.toList
  guard (cs.all isPrintable)
  let fuel := 8 * (cs.length + 1)
  let k := (Cursor.start (unifyBreaks cs)).skip false
  if k.rest.isEmpty then
    return none
  else
    let (handles, k) ← content? fuel k
    let (tree, after) ← blockNode fuel 0 false .empty k
    guard (isOver fuel after)
    return some (← tree.node? handles)

end BattleTree.Yaml
