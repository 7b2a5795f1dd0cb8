import BattleTree.Graph.Exhaustive
import BattleTree.Proofs.Serial.Program
import BattleTree.Serial.Graph

/-!
This module contains that graphs, decisions and trace logs are given back by their serialized forms.
-/

namespace BattleTree

open Serial

instance : LawfulSerial Action where
  decode_encode action := by
    change (decode (encode action.code)).map Action.mk = some action
    rw [decode_encode]
    rfl

instance : LawfulSerial AttackTarget where
  decode_encode target := by
    cases target with
    | qualified qualifier =>
      change (decode (encode qualifier)).map AttackTarget.qualified = _
      rw [decode_encode]
      rfl
    | slot slot =>
      change (decode (encode slot)).map AttackTarget.slot = _
      rw [decode_encode]
      rfl

instance : LawfulSerial Region where
  decode_encode region := by
    change (do
      return ({
        row := ← decode (encode region.row)
        col := ← decode (encode region.col) } : Region)) = _
    rw [decode_encode, decode_encode]
    rfl

theorem Atomic.ofValue?_toValue (atomic : Atomic) : ofValue? atomic.toValue = some atomic := by
  cases atomic <;>
    simp [toValue, ofValue?, Value.alternative?, required, Serial.optional, List.lookup_cons]

instance : LawfulSerial Atomic where
  decode_encode := Atomic.ofValue?_toValue

namespace Node

mutual

theorem ofValue?_toValue (n : Node) : ofValue? n.toValue = some n := by
  cases n with
  | sequence id ns | fallback id ns =>
    rw [toValue, ofValue?]
    simp [required, childrenField?, ofValues?, ofValueList?_toValues ns]
  | decorator id transform n =>
    rw [toValue, ofValue?]
    simp [required, List.lookup_cons, childField?, ofValue?_toValue n]
  | leaf id atomic =>
    rw [toValue, ofValue?]
    simp [required, List.lookup_cons]

theorem ofValueList?_toValues (ns : List Node) : ofValueList? (toValues ns) = some ns := by
  cases ns with
  | nil => rfl
  | cons n ns =>
    rw [toValues, ofValueList?, ofValue?_toValue n, ofValueList?_toValues ns]
    rfl

end

end Node

instance : LawfulSerial Node where
  decode_encode := Node.ofValue?_toValue

instance : LawfulSerial Graph where
  decode_encode g := by
    change (do
      return ({
        root := ← decode (encode g.root)
        nodeCount := ← decode (encode g.nodeCount) } : Graph)) = _
    rw [decode_encode, decode_encode]
    rfl

instance : LawfulSerial Decision where
  decode_encode d := by
    change (do
      return ({
        status := ← decode (encode d.status)
        action := ← decode (encode d.action)
        node := ← decode (encode d.node) } : Decision)) = _
    rw [decode_encode, decode_encode, decode_encode]
    rfl

instance : LawfulSerial TraceEvent where
  decode_encode e := by
    change (do
      return ({
        tick := ← decode (encode e.tick)
        kind := ← decode (encode e.kind)
        node := ← decode (encode e.node)
        value := ← decode (encode e.value) } : TraceEvent)) = _
    rw [decode_encode, decode_encode, decode_encode, decode_encode]
    rfl

instance : LawfulSerial TraceLog where
  decode_encode log := by
    change (decode (encode log.toList) >>= fun events : List TraceEvent =>
      return TraceLog.mk events.toArray) = _
    rw [decode_encode]
    rfl

namespace Serial

theorem decode_serialized_form :
    (∀ t : SyntaxTree Span, t.Fits → decode (encode t) = some t) ∧
    (∀ g : Graph, ∃ restored, decode (encode g) = some restored ∧ restored = g ∧
      (∀ (v : View) (c : Context), restored.tick v c = g.tick v c ∧
        restored.tickExhaustive v c = g.tickExhaustive v c ∧
        ∀ (σ : Type) [TraceSink σ] (sink : σ),
          restored.tickTraced v c sink = g.tickTraced v c sink) ∧
      ∀ id, restored.node? id = g.node? id) ∧
    (∀ d : Decision, decode (encode d) = some d) ∧
    ∀ log : TraceLog, decode (encode log) = some log := by
  refine ⟨?_, ?_, decode_encode, decode_encode⟩
  · intro t h
    exact h.decode_encode
  · intro g
    refine ⟨g, decode_encode g, rfl, ?_, ?_⟩
    · intro v c
      refine ⟨rfl, rfl, ?_⟩
      intro σ _ sink
      rfl
    · intro id
      rfl

theorem decode_serialized_form_largest :
    let last : Span := ⟨18446744073709551615, 4294967295, 18446744073709551615⟩
    let t : SyntaxTree Span := .decorator last ⟨"invert", [.quoted "\"\n"]⟩ <|
      .sequence last [.action last ⟨"attack", [.ref (.enemy 18446744073709551615)]⟩]
    t.Fits ∧ decode (encode t) = some t := by
  intro last t
  have hlast : last.Fits := ⟨by decide, by decide, by decide⟩
  have hfits : t.Fits := by
    intro u hu
    simp only [t, SyntaxTree.preorder, SyntaxTree.preorderAll, List.append_nil, List.mem_cons,
      List.not_mem_nil, or_false] at hu
    rcases hu with rfl | rfl | rfl
    all_goals exact hlast
  exact ⟨hfits, decode_serialized_form.1 t hfits⟩

end Serial

end BattleTree
