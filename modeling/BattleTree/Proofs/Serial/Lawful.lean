import BattleTree.Serial.Tags

/-!
This module contains the law of serialized forms, that decoding gives back what was encoded, for the
basic types and for lists, optional values and plain alternatives.
-/

namespace BattleTree

class LawfulSerial (α : Type) [Serial α] : Prop where
  decode_encode (a : α) : decode (encode a) = some a

export LawfulSerial (decode_encode)

attribute [simp] decode_encode

class LawfulTagged (α : Type) [Tagged α] : Prop where
  find?_tag (a : α) : (Tagged.all.find? fun b => Tagged.tag b == Tagged.tag a) = some a

namespace Serial

@[simp]
theorem decode_text (s : String) : decode (.text s) = some s := rfl

instance : LawfulSerial String where
  decode_encode := decode_text

instance : LawfulSerial UInt32 where
  decode_encode n := by
    simp [encode, decode, n.toNat_lt_size]

instance : LawfulSerial UInt64 where
  decode_encode n := by
    simp [encode, decode, n.toNat_lt_size]

instance : LawfulSerial Int8 where
  decode_encode n := by
    have hrange : Int8.minValue.toInt ≤ n.toInt ∧ n.toInt ≤ Int8.maxValue.toInt :=
      ⟨n.minValue_le_toInt, n.toInt_le⟩
    have hdecode : decode (encode n) =
        if Int8.minValue.toInt ≤ n.toInt ∧ n.toInt ≤ Int8.maxValue.toInt then
          some (Int8.ofInt n.toInt)
        else none := rfl
    rw [hdecode, if_pos hrange, Int8.ofInt_toInt]

theorem mapM_decode_map_encode {α : Type} [Serial α] [LawfulSerial α] (as : List α) :
    (as.map encode).mapM (decode : Value → Option α) = some as := by
  induction as with
  | nil => rfl
  | cons a as ih => simp [ih]

instance {α : Type} [Serial α] [LawfulSerial α] : LawfulSerial (List α) where
  decode_encode as := by
    exact mapM_decode_map_encode as

section

variable {α : Type} [Tagged α] [LawfulTagged α]

theorem decode_tag (a : α) : decode (encode a) = some a := by
  simp [encode, decode, Value.plainAlternative?, Value.alternative?, LawfulTagged.find?_tag]

instance : LawfulSerial α where
  decode_encode := decode_tag

instance : LawfulSerial (Option α) where
  decode_encode o := by
    cases o with
    | none => rfl
    | some a =>
      change (decode (encode a)).map some = some (some a)
      rw [decode_tag]
      rfl

end

end Serial

instance : LawfulTagged Status where
  find?_tag status := by cases status <;> rfl

instance : LawfulTagged Heading where
  find?_tag heading := by cases heading <;> rfl

instance : LawfulTagged Qualifier where
  find?_tag qualifier := by cases qualifier <;> rfl

instance : LawfulTagged UnitType where
  find?_tag unit := by cases unit <;> rfl

instance : LawfulTagged Team where
  find?_tag team := by cases team <;> rfl

instance : LawfulTagged Subject where
  find?_tag subject := by cases subject <;> rfl

instance : LawfulTagged HealthLevel where
  find?_tag level := by cases level <;> rfl

instance : LawfulTagged Negation where
  find?_tag negation := by cases negation <;> rfl

instance : LawfulTagged Course where
  find?_tag course := by cases course <;> rfl

instance : LawfulTagged Direction where
  find?_tag direction := by cases direction <;> rfl

instance : LawfulTagged Transform where
  find?_tag transform := by cases transform <;> rfl

instance : LawfulTagged EventKind where
  find?_tag kind := by cases kind <;> rfl

end BattleTree
