import BattleTree.Program.Printer
import BattleTree.Proofs.Program.References
import BattleTree.Proofs.Program.Extent

/-!
This module contains the canonical text of programs as a text of the grammar, for the trees that
have one: their names are names, and their arguments are read back as they are.
-/

namespace BattleTree

open Grammar Lexeme

def Arg.Printable : Arg → Prop
  | word text => IsName text.toList ∧ Reference.ofWord? text.toList = none
  | quoted text => '"' ∉ text.toList
  | ref _ => True

instance : (arg : Arg) → Decidable arg.Printable
  | .word _ => inferInstanceAs (Decidable (_ ∧ _))
  | .quoted _ => inferInstanceAs (Decidable (¬_))
  | .ref _ => inferInstanceAs (Decidable True)

def Call.Printable (call : Call) : Prop :=
  IsName call.name.toList ∧ ∀ arg ∈ call.args, arg.Printable

instance (call : Call) : Decidable call.Printable :=
  inferInstanceAs (Decidable (_ ∧ _))

namespace Grammar

structure WordEnds (cs : List Char) : Prop where
  ends : NameEnds cs
  not_opens : ¬Opens cs

theorem WordEnds.parenthesis (rest : List Char) : WordEnds (')' :: rest) := by
  constructor
  · intro c hc
    obtain rfl := Option.some.inj hc
    decide
  · exact not_opens_of_token (by decide) (by decide)

theorem WordEnds.space {c : Char} {cs : List Char} (hc : StartsToken c) (h : c ≠ '(') :
    WordEnds (' ' :: c :: cs) := by
  constructor
  · intro d hd
    obtain rfl := Option.some.inj hd
    decide
  · rw [Opens.of_gap (.blank (by decide) (.none _))]
    exact not_opens_of_token hc h

theorem argText_text {arg : Arg} (h : arg.Printable) {rest : List Char} (hrest : WordEnds rest) :
    ArgText arg (arg.text.toList ++ rest) rest := by
  cases arg with
  | word text =>
    have := ArgText.word ⟨h.1, rfl, hrest.ends⟩ hrest.not_opens h.2
    rw [String.ofList_toList] at this
    exact this
  | quoted text =>
    have : ArgText _ ('"' :: (text.toList ++ '"' :: rest)) rest := .quoted h
    rw [String.ofList_toList] at this
    simpa [Arg.text] using this
  | ref reference =>
    exact .ref ⟨reference.isName_text, rfl, hrest.ends⟩ hrest.not_opens reference.ofWord?_text

def argsChars (args : List Arg) : List Char :=
  args.flatMap fun arg => ' ' :: arg.text.toList

theorem argsText_argsChars {args : List Arg} (h : ∀ arg ∈ args, arg.Printable)
    {rest : List Char} (hrest : WordEnds rest) :
    ArgsText args (argsChars args ++ rest) rest ∧ WordEnds (argsChars args ++ rest) := by
  -- What comes after a word decides where it ends, so both facts are needed at once.
  induction args with
  | nil => exact ⟨.nil rest, hrest⟩
  | cons arg args ih =>
    obtain ⟨hargs, hends⟩ := ih fun a ha => h a (List.mem_cons_of_mem _ ha)
    have harg := argText_text (h arg List.mem_cons_self) hends
    have hsplit : argsChars (arg :: args) ++ rest =
        ' ' :: (arg.text.toList ++ (argsChars args ++ rest)) := by
      simp [argsChars]
    rw [hsplit]
    constructor
    · exact .cons (.blank (by decide) (.none _)) harg hargs
    · obtain ⟨c, tail, htail, hc, hparen⟩ := harg.startsToken
      rw [htail]
      exact .space hc hparen

theorem toList_callText (call : Call) :
    call.text.toList = call.name.toList ++ argsChars call.args := by
  have hfoldl (args : List Arg) (init : String) :
      (args.foldl (fun text arg => text ++ " " ++ arg.text) init).toList =
        init.toList ++ argsChars args := by
    induction args generalizing init with
    | nil => simp [argsChars]
    | cons arg args ih =>
      rw [List.foldl_cons, ih]
      simp [argsChars]
  apply hfoldl

theorem callText_text {call : Call} (h : call.Printable) {rest : List Char}
    (hrest : WordEnds rest) : CallText call (call.text.toList ++ rest) rest := by
  obtain ⟨hargs, hends⟩ := argsText_argsChars h.2 hrest
  have := CallText.mk ⟨h.1, rfl, hends.ends⟩ hargs
  rw [String.ofList_toList] at this
  rw [toList_callText, List.append_assoc]
  exact this

end Grammar

namespace SyntaxTree

variable {σ : Type}

def Printable (t : SyntaxTree σ) : Prop :=
  ∀ u ∈ t.preorder, ∀ call ∈ u.call?, call.Printable

instance (t : SyntaxTree σ) : Decidable t.Printable :=
  inferInstanceAs (Decidable (∀ u ∈ t.preorder, ∀ call ∈ u.call?, call.Printable))

@[simp]
theorem printable_sequence (m : σ) (ts : List (SyntaxTree σ)) :
    (sequence m ts).Printable ↔ ∀ t ∈ ts, t.Printable := by
  simp only [Printable, preorder, List.forall_mem_cons, mem_preorderAll, call?]
  constructor
  · rintro ⟨-, h⟩ t ht u hu
    exact h u ⟨t, ht, hu⟩
  · intro h
    constructor
    · simp
    · rintro u ⟨t, ht, hu⟩
      exact h t ht u hu

@[simp]
theorem printable_fallback (m : σ) (ts : List (SyntaxTree σ)) :
    (fallback m ts).Printable ↔ ∀ t ∈ ts, t.Printable := by
  rw [← printable_sequence m]
  simp only [Printable, preorder, List.forall_mem_cons, call?]

@[simp]
theorem printable_action (m : σ) (call : Call) : (action m call).Printable ↔ call.Printable := by
  simp [Printable, preorder, call?]

@[simp]
theorem printable_condition (m : σ) (call : Call) :
    (condition m call).Printable ↔ call.Printable := by
  simp [Printable, preorder, call?]

@[simp]
theorem printable_decorator (m : σ) (call : Call) (t : SyntaxTree σ) :
    (decorator m call t).Printable ↔ call.Printable ∧ t.Printable := by
  simp [Printable, preorder, call?]

def siblingsChars (ts : List (SyntaxTree σ)) : List Char :=
  ts.flatMap fun t => " :: ".toList ++ t.text.toList

theorem toList_textAll_cons (t : SyntaxTree σ) (ts : List (SyntaxTree σ)) :
    (textAll (t :: ts)).toList = t.text.toList ++ siblingsChars ts := by
  induction ts generalizing t with
  | nil => simp [textAll, siblingsChars]
  | cons u us ih =>
    rw [textAll, String.toList_append, String.toList_append, ih]
    simp [siblingsChars]

end SyntaxTree

namespace Grammar

open SyntaxTree

variable {σ : Type}

theorem Opening.parenthesis (cs : List Char) : Opening ('(' :: cs) cs := by
  exact ⟨cs, .none _, .none _⟩

theorem toList_group (letter : Char) (inside : String) (rest : List Char) :
    (String.ofList [letter, '('] ++ inside ++ ")").toList ++ rest =
      letter :: '(' :: (inside.toList ++ ')' :: rest) := by
  simp

mutual

theorem nodeText_text (t : SyntaxTree σ) (h : t.Printable) (rest : List Char) :
    NodeText (fun _ => ()) t.shape (t.text.toList ++ rest) rest := by
  cases t with
  | sequence m ts =>
    rw [printable_sequence] at h
    rw [text, toList_group 'S']
    exact .sequence (.parenthesis _) (nodesText_textAll ts h _) (.none _)
  | fallback m ts =>
    rw [printable_fallback] at h
    rw [text, toList_group 'F']
    exact .fallback (.parenthesis _) (nodesText_textAll ts h _) (.none _)
  | action m call =>
    rw [printable_action] at h
    rw [text, toList_group 'A']
    exact .action (.parenthesis _) (callText_text h (.parenthesis rest)) (.none _)
  | condition m call =>
    rw [printable_condition] at h
    rw [text, toList_group 'C']
    exact .condition (.parenthesis _) (callText_text h (.parenthesis rest)) (.none _)
  | decorator m call t =>
    rw [printable_decorator] at h
    have hnode := nodeText_text t h.2 (')' :: rest)
    -- The letter of the child keeps its parenthesis apart from the last argument.
    have hends : WordEnds (' ' :: (t.text.toList ++ ')' :: rest)) := by
      obtain ⟨kind, tail, _, htail, -⟩ := hnode.starts
      rw [htail]
      apply WordEnds.space (startsToken_letter kind)
      cases kind <;> decide
    have hsplit : (decorator m call t).text.toList ++ rest =
        'D' :: '(' :: (call.text.toList ++ ' ' :: (t.text.toList ++ ')' :: rest)) := by
      simp [text]
    rw [hsplit]
    exact .decorator (.parenthesis _) (callText_text h.1 hends)
      (.blank (by decide) (.none _)) hnode (.none _)

theorem nodesText_textAll (ts : List (SyntaxTree σ)) (h : ∀ t ∈ ts, t.Printable)
    (rest : List Char) :
    NodesText (fun _ => ()) (mapAll (fun _ => ()) ts) ((textAll ts).toList ++ rest) rest := by
  cases ts with
  | nil => exact .nil rest
  | cons t ts =>
    rw [toList_textAll_cons, List.append_assoc]
    rw [List.forall_mem_cons] at h
    exact .cons (nodeText_text t h.1 _) (siblingsText_siblingsChars ts h.2 rest)

theorem siblingsText_siblingsChars (ts : List (SyntaxTree σ)) (h : ∀ t ∈ ts, t.Printable)
    (rest : List Char) :
    SiblingsText (fun _ => ()) (mapAll (fun _ => ()) ts) (siblingsChars ts ++ rest) rest := by
  cases ts with
  | nil => exact .nil rest
  | cons t ts =>
    rw [List.forall_mem_cons] at h
    have hblank (cs : List Char) : Gap (' ' :: cs) cs := .blank (by decide) (.none cs)
    have hsplit : siblingsChars (t :: ts) ++ rest =
        ' ' :: ':' :: ':' :: ' ' :: (t.text.toList ++ (siblingsChars ts ++ rest)) := by
      simp [siblingsChars]
    rw [hsplit]
    exact .cons (hblank _) (hblank _) (nodeText_text t h.1 _)
      (siblingsText_siblingsChars ts h.2 rest)

end

theorem derives_text {t : SyntaxTree σ} (h : t.Printable) : Derives t.text t.shape := by
  have := nodeText_text t h []
  rw [List.append_nil] at this
  exact ⟨t.text.toList, [], .none _, this, .none _⟩

end Grammar

end BattleTree
