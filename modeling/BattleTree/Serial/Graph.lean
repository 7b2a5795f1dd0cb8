import BattleTree.Graph.Decision
import BattleTree.Serial.Tags
import BattleTree.Trace.Log

/-!
This module contains the serialized form of executable trees, decisions and trace logs. An
alternative with contents is a record with its name as the only field.
-/

namespace BattleTree

open Serial

instance : Serial Action where
  encode action := encode action.code
  decode v := (decode v).map Action.mk

instance : Serial AttackTarget where
  encode
    | .qualified qualifier => .record [("Qualified", encode qualifier)]
    | .slot slot => .record [("Slot", encode slot)]
  decode v :=
    match v.alternative? with
    | some ("Qualified", some qualifier) => (decode qualifier).map .qualified
    | some ("Slot", some slot) => (decode slot).map .slot
    | _ => none

instance : Serial Region where
  encode region := .record [("row", encode region.row), ("col", encode region.col)]
  decode v := do
    let fields ← v.fields? ["row", "col"]
    return { row := ← required fields "row" decode, col := ← required fields "col" decode }

namespace Atomic

def toValue : Atomic → Value
  | attack target unit =>
    .record [("Attack", .record [("target", encode target), ("unit", encode unit)])]
  | moveRelative course qualifier team unit =>
    .record [("MoveRelative", .record [("course", encode course), ("qualifier", encode qualifier),
      ("team", encode team), ("unit", encode unit)])]
  | moveCenter => .text "MoveCenter"
  | moveHeading heading => .record [("MoveHeading", encode heading)]
  | stand => .text "Stand"
  | explore => .text "Explore"
  | inRegion region => .record [("InRegion", encode region)]
  | inSight team unit =>
    .record [("InSight", .record [("team", encode team), ("unit", encode unit)])]
  | inReach team unit =>
    .record [("InReach", .record [("team", encode team), ("unit", encode unit)])]
  | isArmed subject => .record [("IsArmed", encode subject)]
  | isDying subject level =>
    .record [("IsDying", .record [("subject", encode subject), ("level", encode level)])]
  | isType negation unit =>
    .record [("IsType", .record [("negation", encode negation), ("unit", encode unit)])]
  | isFlock team direction =>
    .record [("IsFlock", .record [("team", encode team), ("direction", encode direction)])]
  | hasObstacle heading => .record [("HasObstacle", encode heading)]

def ofValue? (v : Value) : Option Atomic := do
  match ← v.alternative? with
  | ("Attack", some (.record fields)) =>
    return .attack (← required fields "target" decode) (← optional fields "unit")
  | ("MoveRelative", some (.record fields)) =>
    return .moveRelative (← required fields "course" decode)
      (← required fields "qualifier" decode) (← required fields "team" decode)
      (← optional fields "unit")
  | ("MoveCenter", none) | ("MoveCenter", some .null) => return .moveCenter
  | ("MoveHeading", some heading) => return .moveHeading (← decode heading)
  | ("Stand", none) | ("Stand", some .null) => return .stand
  | ("Explore", none) | ("Explore", some .null) => return .explore
  | ("InRegion", some region) => return .inRegion (← decode region)
  | ("InSight", some (.record fields)) =>
    return .inSight (← required fields "team" decode) (← optional fields "unit")
  | ("InReach", some (.record fields)) =>
    return .inReach (← required fields "team" decode) (← optional fields "unit")
  | ("IsArmed", some subject) => return .isArmed (← decode subject)
  | ("IsDying", some (.record fields)) =>
    return .isDying (← required fields "subject" decode) (← required fields "level" decode)
  | ("IsType", some (.record fields)) =>
    return .isType (← required fields "negation" decode) (← required fields "unit" decode)
  | ("IsFlock", some (.record fields)) =>
    return .isFlock (← required fields "team" decode) (← required fields "direction" decode)
  | ("HasObstacle", some heading) => return .hasObstacle (← decode heading)
  | _ => none

end Atomic

instance : Serial Atomic where
  encode := Atomic.toValue
  decode := Atomic.ofValue?

namespace Node

mutual

def toValue : Node → Value
  | sequence id children =>
    .record [("Sequence", .record [("id", encode id), ("children", .list (toValues children))])]
  | fallback id children =>
    .record [("Fallback", .record [("id", encode id), ("children", .list (toValues children))])]
  | decorator id transform child =>
    .record [("Decorator", .record [("id", encode id), ("transform", encode transform),
      ("child", child.toValue)])]
  | leaf id atomic => .record [("Leaf", .record [("id", encode id), ("atomic", encode atomic)])]

def toValues : List Node → List Value
  | [] => []
  | n :: ns => n.toValue :: toValues ns

end

mutual

def ofValue? : Value → Option Node
  | .record [("Sequence", .record fields)] => do
    return .sequence (← required fields "id" decode) (← childrenField? fields)
  | .record [("Fallback", .record fields)] => do
    return .fallback (← required fields "id" decode) (← childrenField? fields)
  | .record [("Decorator", .record fields)] => do
    return .decorator (← required fields "id" decode) (← required fields "transform" decode)
      (← childField? fields)
  | .record [("Leaf", .record fields)] => do
    return .leaf (← required fields "id" decode) (← required fields "atomic" decode)
  | _ => none

def childField? : Value.Fields → Option Node
  | [] => none
  | (name, v) :: fields => if name = "child" then ofValue? v else childField? fields

def childrenField? : Value.Fields → Option (List Node)
  | [] => none
  | (name, v) :: fields => if name = "children" then ofValues? v else childrenField? fields

def ofValues? : Value → Option (List Node)
  | .list values => ofValueList? values
  | _ => none

def ofValueList? : List Value → Option (List Node)
  | [] => some []
  | v :: values => do return (← ofValue? v) :: (← ofValueList? values)

end

end Node

instance : Serial Node where
  encode := Node.toValue
  decode := Node.ofValue?

instance : Serial Graph where
  encode g := .record [("root", encode g.root), ("node_count", encode g.nodeCount)]
  decode v := do
    let fields ← v.fields? ["root", "node_count"]
    return {
      root := ← required fields "root" decode
      nodeCount := ← required fields "node_count" decode }

instance : Serial Decision where
  encode d :=
    .record [("status", encode d.status), ("action", encode d.action), ("node", encode d.node)]
  decode v := do
    let fields ← v.fields? ["status", "action", "node"]
    return {
      status := ← required fields "status" decode
      action := ← required fields "action" decode
      node := ← required fields "node" decode }

instance : Serial TraceEvent where
  encode e :=
    .record [("tick", encode e.tick), ("kind", encode e.kind), ("node", encode e.node),
      ("value", encode e.value)]
  decode v := do
    let fields ← v.fields? ["tick", "kind", "node", "value"]
    return {
      tick := ← required fields "tick" decode
      kind := ← required fields "kind" decode
      node := ← required fields "node" decode
      value := ← required fields "value" decode }

instance : Serial TraceLog where
  encode log := .record [("events", encode log.toList)]
  decode v := do
    let fields ← v.fields? ["events"]
    let events ← required fields "events" (decode : Value → Option (List TraceEvent))
    return ⟨events.toArray⟩

end BattleTree
