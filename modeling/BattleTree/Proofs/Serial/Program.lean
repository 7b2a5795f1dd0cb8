import BattleTree.Proofs.Program.Places
import BattleTree.Proofs.Serial.Lawful
import BattleTree.Serial.Program

/-!
This module contains that syntax trees are given back by their serialized forms, if their places
have the size that places are stored with. Lines are counted without a bound here, so this is asked
for. All places in texts of less than four gigabytes have the size.
-/

namespace BattleTree

open Serial

/-- Lines are stored with 32 bits, and offsets and columns with 64. -/
structure Span.Fits (p : Span) : Prop where
  offset_lt : p.offset < UInt64.size
  line_lt : p.line < UInt32.size
  column_lt : p.column < UInt64.size

theorem Span.Fits.decode_encode {p : Span} (h : p.Fits) : decode (encode p) = some p := by
  obtain ⟨hoffset, hline, hcolumn⟩ := h
  simp [encode, decode, Value.fields?, required, List.lookup_cons, Value.count?, Value.smallCount?,
    hoffset, hline, hcolumn]

theorem length_le_utf8ByteSize (text : List Char) :
    text.length ≤ (String.ofList text).utf8ByteSize := by
  induction text with
  | nil => exact Nat.zero_le _
  | cons c text ih =>
    have hc := c.utf8Size_pos
    simp only [List.length_cons, String.ofList_cons, String.utf8ByteSize_append,
      String.utf8ByteSize_singleton]
    omega

theorem Span.Locates.fits {p : Span} {before after : List Char} {text : String}
    (h : p.Locates before) (htext : text.toList = before ++ after)
    (hsize : text.utf8ByteSize + 1 < UInt32.size) : p.Fits := by
  have hbytes : (String.ofList before).utf8ByteSize ≤ text.utf8ByteSize := by
    rw [← String.ofList_toList (s := text), htext, String.ofList_append, String.utf8ByteSize_append]
    omega
  have hlength := length_le_utf8ByteSize before
  have hcount : before.count '\n' ≤ before.length := List.count_le_length
  have hcolumn := (List.takeWhile_prefix (· ≠ '\n') (l := before.reverse)).length_le
  rw [List.length_reverse] at hcolumn
  have hbound : UInt32.size < UInt64.size := by decide
  constructor
  · rw [h.offset_eq]
    omega
  · rw [h.line_eq]
    omega
  · rw [h.column_eq]
    omega

theorem Reference.ofValue?_toValue (spelling : Spelling) (r : Reference) :
    ofValue? spelling r.toValue = some r := by
  cases r <;> simp [toValue, ofValue?, Value.alternative?]

theorem Arg.ofValue?_toValue (spelling : Spelling) (arg : Arg) :
    ofValue? spelling arg.toValue = some arg := by
  cases arg <;>
    simp [toValue, ofValue?, ofContents?, required, List.lookup_cons, Value.plainAlternative?,
      Value.alternative?, Reference.ofValue?_toValue]

theorem Call.ofValue?_toValue (call : Call) : ofValue? call.toValue = some call := by
  have hargs : (call.args.map Arg.toValue).mapM (Arg.ofValue? .lenient) = some call.args := by
    induction call.args with
    | nil => rfl
    | cons arg args ih => simp [Arg.ofValue?_toValue, ih]
  simp [toValue, ofValue?, Value.fields?, required, List.lookup_cons, hargs]

namespace SyntaxTree

def Fits (t : SyntaxTree Span) : Prop :=
  ∀ u ∈ t.preorder, u.mark.Fits

mutual

theorem ofValue?_toValue (spelling : Spelling) (t : SyntaxTree Span) (h : t.Fits) :
    ofValue? spelling t.toValue = some t := by
  unfold Fits at h
  cases t with
  | sequence span ts | fallback span ts =>
    rw [preorder, List.forall_mem_cons] at h
    have hspan : decode (encode span) = some span := h.1.decode_encode
    rw [toValue, ofValue?]
    simp [required, List.lookup_cons, hspan, Value.name?, childrenField?, ofValues?,
      ofValueList?_toValues ts h.2]
  | action span call | condition span call =>
    have hspan : decode (encode span) = some span := (h _ List.mem_cons_self).decode_encode
    rw [toValue, ofValue?]
    simp [required, List.lookup_cons, hspan, Value.name?, Call.ofValue?_toValue]
  | decorator span call t =>
    rw [preorder, List.forall_mem_cons] at h
    have hspan : decode (encode span) = some span := h.1.decode_encode
    rw [toValue, ofValue?]
    simp [required, List.lookup_cons, hspan, Value.name?, Call.ofValue?_toValue, childField?,
      ofValue?_toValue .lenient t h.2]

theorem ofValueList?_toValues (ts : List (SyntaxTree Span))
    (h : ∀ u ∈ preorderAll ts, u.mark.Fits) : ofValueList? (toValues ts) = some ts := by
  cases ts with
  | nil => rfl
  | cons t ts =>
    rw [preorderAll, List.forall_mem_append] at h
    rw [toValues, ofValueList?, ofValue?_toValue .lenient t h.1, ofValueList?_toValues ts h.2]
    rfl

end

theorem Fits.decode_encode {t : SyntaxTree Span} (h : t.Fits) : decode (encode t) = some t := by
  simp [encode, decode, Value.fields?, required, ofValue?_toValue .strict t h]

end SyntaxTree

theorem Program.fits_of_parse {text : String} {tree : SyntaxTree Span}
    (h : parse text = .ok tree) (hsize : text.utf8ByteSize + 1 < UInt32.size) : tree.Fits := by
  intro u hu
  obtain ⟨before, slice, after, v, hstands⟩ := exists_stands_of_parse h u hu
  exact hstands.locates.fits hstands.text_eq hsize

end BattleTree
