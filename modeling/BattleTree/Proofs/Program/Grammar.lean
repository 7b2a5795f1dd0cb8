import BattleTree.Program.Lexeme
import BattleTree.Program.SyntaxTree

/-!
This module contains the grammar of programs as relations between a syntax tree, a text that starts
with it, and the text that is left after it. What is left matters: a name goes on as long as there
are characters of names, and a word is no argument if an opening parenthesis comes next.

```text
program   := gap node gap
node      := action | condition | sequence | fallback | decorator
sequence  := "S" gap "(" gap nodes gap ")"
fallback  := "F" gap "(" gap nodes gap ")"
nodes     := (node (gap "::" gap node)*)?
action    := "A" gap "(" gap call gap ")"
condition := "C" gap "(" gap call gap ")"
decorator := "D" gap "(" gap call gap node gap ")"
call      := NAME (gap ARG)*
ARG       := WORD | '"' [^"]* '"'
gap       := (blank | "//" comment)*
```
-/

namespace BattleTree

namespace Grammar

def LineEnds (cs : List Char) : Prop :=
  ∀ c ∈ cs.head?, c = '\n'

inductive Gap : List Char → List Char → Prop where
  | none (cs : List Char) : Gap cs cs
  | blank {c : Char} {cs rest : List Char} : Lexeme.isSpace c → Gap cs rest → Gap (c :: cs) rest
  | comment {line cs rest : List Char} : '\n' ∉ line → LineEnds cs → Gap cs rest →
      Gap ('/' :: '/' :: (line ++ cs)) rest

def IsName : List Char → Prop
  | [] => False
  | c :: cs => Lexeme.startsName c ∧ ∀ d ∈ cs, Lexeme.continuesName d

instance : (word : List Char) → Decidable (IsName word)
  | [] => inferInstanceAs (Decidable False)
  | _ :: cs => @instDecidableAnd _ _ _ (List.decidableBAll _ cs)

def NameEnds (cs : List Char) : Prop :=
  ∀ c ∈ cs.head?, ¬Lexeme.continuesName c

structure NameText (word cs rest : List Char) : Prop where
  isName : IsName word
  eq_append : cs = word ++ rest
  ends : NameEnds rest

def Opens (cs : List Char) : Prop :=
  ∃ rest, Gap cs ('(' :: rest)

inductive ArgText : Arg → List Char → List Char → Prop where
  | word {word cs rest : List Char} : NameText word cs rest → ¬Opens rest →
      Reference.ofWord? word = none → ArgText (.word (String.ofList word)) cs rest
  | ref {word cs rest : List Char} {reference : Reference} : NameText word cs rest → ¬Opens rest →
      Reference.ofWord? word = some reference → ArgText (.ref reference) cs rest
  | quoted {text rest : List Char} : '"' ∉ text →
      ArgText (.quoted (String.ofList text)) ('"' :: (text ++ '"' :: rest)) rest

inductive ArgsText : List Arg → List Char → List Char → Prop where
  | nil (cs : List Char) : ArgsText [] cs cs
  | cons {arg : Arg} {args : List Arg} {cs start mid rest : List Char} : Gap cs start →
      ArgText arg start mid → ArgsText args mid rest → ArgsText (arg :: args) cs rest

inductive CallText : Call → List Char → List Char → Prop where
  | mk {name : List Char} {args : List Arg} {cs mid rest : List Char} : NameText name cs mid →
      ArgsText args mid rest → CallText ⟨String.ofList name, args⟩ cs rest

def Opening (cs start : List Char) : Prop :=
  ∃ mid, Gap cs ('(' :: mid) ∧ Gap mid start

def Closing (cs rest : List Char) : Prop :=
  Gap cs (')' :: rest)

section

/-! Nodes are annotated with what `mark` makes of the number of characters from their start on. -/

variable {σ : Type} (mark : Nat → σ)

mutual

inductive NodeText : SyntaxTree σ → List Char → List Char → Prop where
  | sequence {ts : List (SyntaxTree σ)} {cs start mid rest : List Char} :
      Opening cs start → NodesText ts start mid → Closing mid rest →
      NodeText (.sequence (mark ('S' :: cs).length) ts) ('S' :: cs) rest
  | fallback {ts : List (SyntaxTree σ)} {cs start mid rest : List Char} :
      Opening cs start → NodesText ts start mid → Closing mid rest →
      NodeText (.fallback (mark ('F' :: cs).length) ts) ('F' :: cs) rest
  | action {call : Call} {cs start mid rest : List Char} :
      Opening cs start → CallText call start mid → Closing mid rest →
      NodeText (.action (mark ('A' :: cs).length) call) ('A' :: cs) rest
  | condition {call : Call} {cs start mid rest : List Char} :
      Opening cs start → CallText call start mid → Closing mid rest →
      NodeText (.condition (mark ('C' :: cs).length) call) ('C' :: cs) rest
  | decorator {call : Call} {t : SyntaxTree σ} {cs start mid inner last rest : List Char} :
      Opening cs start → CallText call start mid → Gap mid inner → NodeText t inner last →
      Closing last rest →
      NodeText (.decorator (mark ('D' :: cs).length) call t) ('D' :: cs) rest

inductive NodesText : List (SyntaxTree σ) → List Char → List Char → Prop where
  | nil (cs : List Char) : NodesText [] cs cs
  | cons {t : SyntaxTree σ} {ts : List (SyntaxTree σ)} {cs mid rest : List Char} :
      NodeText t cs mid → SiblingsText ts mid rest → NodesText (t :: ts) cs rest

inductive SiblingsText : List (SyntaxTree σ) → List Char → List Char → Prop where
  | nil (cs : List Char) : SiblingsText [] cs cs
  | cons {t : SyntaxTree σ} {ts : List (SyntaxTree σ)} {cs start inner mid rest : List Char} :
      Gap cs (':' :: ':' :: start) → Gap start inner → NodeText t inner mid →
      SiblingsText ts mid rest → SiblingsText (t :: ts) cs rest

end

def ProgramText (t : SyntaxTree σ) (cs : List Char) : Prop :=
  ∃ start rest, Gap cs start ∧ NodeText mark t start rest ∧ Gap rest []

end

def Derives (text : String) (t : SyntaxTree Unit) : Prop :=
  ProgramText (fun _ => ()) t text.toList

end Grammar

end BattleTree
