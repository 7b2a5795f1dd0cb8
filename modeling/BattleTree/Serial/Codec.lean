import BattleTree.Serial.Value

/-!
This module contains the pairs of a writer and a reader of serialized values, for the basic types.
-/

namespace BattleTree

/--
Types with a serialized form. Decoding refuses what encoding cannot produce, apart from spelling.
-/
class Serial (α : Type) where
  encode : α → Value
  decode : Value → Option α

class Tagged (α : Type) where
  all : List α
  tag : α → String

export Serial (encode decode)

namespace Serial

instance : Serial Bool where
  encode := .bool
  decode
    | .bool b => some b
    | _ => none

instance : Serial String where
  encode := .text
  decode
    | .text s => some s
    | _ => none

instance : Serial UInt32 where
  encode n := .count n.toNat
  decode v := (v.natBelow? UInt32.size).map UInt32.ofNat

instance : Serial UInt64 where
  encode n := .count n.toNat
  decode v := (v.natBelow? UInt64.size).map UInt64.ofNat

instance : Serial Int8 where
  encode n := .int n.toInt
  decode
    | .int n =>
      if Int8.minValue.toInt ≤ n ∧ n ≤ Int8.maxValue.toInt then some (Int8.ofInt n) else none
    | _ => none

instance : Serial Float32 where
  encode := .real
  decode
    | .real x => some x
    | .int n => some (Float32.ofInt n)
    | _ => none

instance {α : Type} [Serial α] : Serial (List α) where
  encode values := .list (values.map encode)
  decode
    | .list values => values.mapM decode
    | _ => none

instance {α : Type} [Serial α] : Serial (Option α) where
  encode
    | none => .null
    | some a => encode a
  decode
    | .null => some none
    | v => (decode v).map some

instance {α : Type} [Tagged α] : Serial α where
  encode a := .text (Tagged.tag a)
  decode v :=
    (v.plainAlternative? .strict).bind fun name => Tagged.all.find? fun a => Tagged.tag a == name

def required {α : Type} (fields : Value.Fields) (name : String) (read : Value → Option α) :
    Option α :=
  (fields.lookup name).bind read

def optional {α : Type} [Serial α] (fields : Value.Fields) (name : String) : Option (Option α) :=
  match fields.lookup name with
  | some v => decode v
  | none => some none

end Serial

end BattleTree
