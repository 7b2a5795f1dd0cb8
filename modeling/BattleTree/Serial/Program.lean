import BattleTree.Program.Position
import BattleTree.Program.SyntaxTree
import BattleTree.Serial.Codec

/-!
This module contains the serialized form of syntax trees. A node is a record with its kind and its
place.
-/

namespace BattleTree

open Serial

instance : Serial Span where
  encode p :=
    .record [("offset", .count p.offset), ("line", .count p.line), ("column", .count p.column)]
  decode v := do
    let fields ← v.fields? ["offset", "line", "column"]
    return {
      offset := ← required fields "offset" Value.count?
      line := ← required fields "line" Value.smallCount?
      column := ← required fields "column" Value.count? }

def Reference.toValue : Reference → Value
  | self => .text "self_ref"
  | enemy slot => .record [("enemy", encode slot)]
  | friend slot => .record [("friend", encode slot)]

def Reference.ofValue? (spelling : Spelling) (v : Value) : Option Reference :=
  match v.alternative? with
  | some ("self_ref", contents) => if contents.all (·.isUnit spelling) then some self else none
  | some ("enemy", some slot) => (decode slot).map enemy
  | some ("friend", some slot) => (decode slot).map friend
  | _ => none

namespace Arg

def kinds : List String :=
  ["word", "quoted", "ref"]

def toValue : Arg → Value
  | word s => .record [("type", .text "word"), ("value", .text s)]
  | quoted s => .record [("type", .text "quoted"), ("value", .text s)]
  | ref r => .record [("type", .text "ref"), ("value", r.toValue)]

def ofContents? (spelling : Spelling) (kind : String) (contents : Value) : Option Arg :=
  match kind with
  | "word" => (decode contents).map word
  | "quoted" => (decode contents).map quoted
  | "ref" => (Reference.ofValue? spelling contents).map ref
  | _ => none

/-- Read an argument. Only in a pair without field names the kind can be a number. -/
def ofValue? (spelling : Spelling) : Value → Option Arg
  | .record fields => do
    let kind ← required fields "type" (Value.plainAlternative? spelling)
    required fields "value" (ofContents? spelling kind)
  | .list [kind, contents] => do ofContents? spelling (← kind.name? spelling kinds) contents
  | _ => none

end Arg

instance : Serial Arg where
  encode := Arg.toValue
  decode := Arg.ofValue? .strict

namespace Call

def toValue (call : Call) : Value :=
  .record [("name", encode call.name), ("args", .list (call.args.map Arg.toValue))]

def ofValue? (v : Value) : Option Call := do
  let fields ← v.fields? ["name", "args"]
  let args ← required fields "args" fun
    | .list values => values.mapM (Arg.ofValue? .lenient)
    | _ => none
  return { name := ← required fields "name" decode, args }

end Call

namespace SyntaxTree

def kinds : List String :=
  ["sequence", "fallback", "action", "condition", "decorator"]

mutual

def toValue : SyntaxTree Span → Value
  | sequence span children =>
    .record [("kind", .text "sequence"), ("span", encode span),
      ("children", .list (toValues children))]
  | fallback span children =>
    .record [("kind", .text "fallback"), ("span", encode span),
      ("children", .list (toValues children))]
  | action span call =>
    .record [("kind", .text "action"), ("span", encode span), ("call", call.toValue)]
  | condition span call =>
    .record [("kind", .text "condition"), ("span", encode span), ("call", call.toValue)]
  | decorator span call child =>
    .record [("kind", .text "decorator"), ("span", encode span), ("call", call.toValue),
      ("child", child.toValue)]

def toValues : List (SyntaxTree Span) → List Value
  | [] => []
  | t :: ts => t.toValue :: toValues ts

end

mutual

/--
Read a node, whose fields can stand in any order. By position, its kind comes first. The kinds of
the nodes below it are read leniently.
-/
def ofValue? (spelling : Spelling) : Value → Option (SyntaxTree Span)
  | .record fields => do
    let span ← required fields "span" decode
    match ← required fields "kind" (Value.name? spelling kinds) with
    | "sequence" => return .sequence span (← childrenField? fields)
    | "fallback" => return .fallback span (← childrenField? fields)
    | "action" => return .action span (← required fields "call" Call.ofValue?)
    | "condition" => return .condition span (← required fields "call" Call.ofValue?)
    | "decorator" =>
      return .decorator span (← required fields "call" Call.ofValue?) (← childField? fields)
    | _ => none
  | .list [kind, span, contents] => do
    let span ← decode span
    match ← kind.name? spelling kinds with
    | "sequence" => return .sequence span (← ofValues? contents)
    | "fallback" => return .fallback span (← ofValues? contents)
    | "action" => return .action span (← Call.ofValue? contents)
    | "condition" => return .condition span (← Call.ofValue? contents)
    | _ => none
  | .list [kind, span, call, child] => do
    match ← kind.name? spelling kinds with
    | "decorator" =>
      return .decorator (← decode span) (← Call.ofValue? call) (← ofValue? .lenient child)
    | _ => none
  | _ => none

def childField? : Value.Fields → Option (SyntaxTree Span)
  | [] => none
  | (name, v) :: fields => if name = "child" then ofValue? .lenient v else childField? fields

def childrenField? : Value.Fields → Option (List (SyntaxTree Span))
  | [] => none
  | (name, v) :: fields => if name = "children" then ofValues? v else childrenField? fields

def ofValues? : Value → Option (List (SyntaxTree Span))
  | .list values => ofValueList? values
  | _ => none

def ofValueList? : List Value → Option (List (SyntaxTree Span))
  | [] => some []
  | v :: values => do return (← ofValue? .lenient v) :: (← ofValueList? values)

end

instance : Serial (SyntaxTree Span) where
  encode t := .record [("root", t.toValue)]
  decode v := do
    let fields ← v.fields? ["root"]
    required fields "root" (ofValue? .strict)

end SyntaxTree

end BattleTree
