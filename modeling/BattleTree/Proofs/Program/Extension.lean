import BattleTree.Proofs.Program.Completeness

/-!
This module contains that what follows a text of the grammar can be exchanged. Nodes end with a
parenthesis, so that anything can follow them. Names, words and comments go on as long as possible:
what follows them matters, but only its first character and whether a parenthesis comes next.
-/

namespace BattleTree

namespace Grammar

open Lexeme

theorem lineEnds_congr {cs cs' : List Char} (h : cs'.head? = cs.head?) (hcs : LineEnds cs) :
    LineEnds cs' := by
  unfold LineEnds
  rw [h]
  exact hcs

theorem nameEnds_congr {cs cs' : List Char} (h : cs'.head? = cs.head?) (hcs : NameEnds cs) :
    NameEnds cs' := by
  unfold NameEnds
  rw [h]
  exact hcs

theorem head?_append_congr {q : List Char} (h : q ≠ []) (cs cs' : List Char) :
    (q ++ cs').head? = (q ++ cs).head? := by
  rw [List.head?_append_of_ne_nil _ h, List.head?_append_of_ne_nil _ h]

theorem Gap.extend {cs rest : List Char} (h : Gap cs rest) :
    ∃ q, cs = q ++ rest ∧ ∀ rest', (LineEnds rest → LineEnds rest') → Gap (q ++ rest') rest' := by
  induction h with
  | none cs => exact ⟨[], rfl, fun rest' _ => .none rest'⟩
  | @blank c cs rest hblank _ ih =>
    obtain ⟨q, rfl, hq⟩ := ih
    exact ⟨c :: q, rfl, fun rest' hrest => .blank hblank (hq rest' hrest)⟩
  | @comment line cs rest hline hends _ ih =>
    obtain ⟨q, rfl, hq⟩ := ih
    refine ⟨'/' :: '/' :: (line ++ q), by simp, ?_⟩
    intro rest' hrest
    have hends' : LineEnds (q ++ rest') := by
      cases q with
      | nil => exact hrest hends
      | cons d q => exact lineEnds_congr (head?_append_congr (by simp) ..) hends
    have := Gap.comment hline hends' (hq rest' hrest)
    simpa using this

theorem Gap.exchange {c : Char} {cs rest : List Char} (h : Gap cs (c :: rest)) (hc : c ≠ '\n') :
    ∃ q, cs = q ++ c :: rest ∧ ∀ rest', Gap (q ++ rest') rest' := by
  obtain ⟨q, hcs, hq⟩ := h.extend
  refine ⟨q, hcs, fun rest' => hq rest' ?_⟩
  intro hends
  exact absurd (hends c rfl) hc

theorem exists_gap {c : Char} {cs rest : List Char} (h : skip cs = c :: rest) :
    ∃ q, cs = q ++ c :: rest ∧ ∀ rest', Gap (q ++ rest') rest' := by
  have hgap := gap_skip cs
  have hspace := not_isSpace_of_skip_eq h
  rw [h] at hgap
  apply hgap.exchange
  rintro rfl
  cases hspace

theorem Gap.newline {cs rest : List Char} (h : Gap cs rest) :
    ∃ q, cs = q ++ rest ∧ ∀ rest', Gap (q ++ '\n' :: rest') ('\n' :: rest') := by
  obtain ⟨q, hcs, hq⟩ := h.extend
  refine ⟨q, hcs, fun rest' => hq _ ?_⟩
  intro _ c hc
  exact (Option.some.inj hc).symm

theorem StartsToken.ne_newline {c : Char} (h : StartsToken c) : c ≠ '\n' := by
  rintro rfl
  exact absurd h (by decide)

theorem ArgText.extend {arg : Arg} {cs rest : List Char} (h : ArgText arg cs rest) :
    ∃ q, q ≠ [] ∧ cs = q ++ rest ∧ ∀ rest', (NameEnds rest → NameEnds rest') →
      (Opens rest' → Opens rest) → ArgText arg (q ++ rest') rest' := by
  cases h with
  | @word word _ _ hname hopens hnone =>
    obtain ⟨hword, rfl, hends⟩ := hname
    refine ⟨word, ?_, rfl, ?_⟩
    · rintro rfl
      exact hword
    · intro rest' hends' hopens'
      exact .word ⟨hword, rfl, hends' hends⟩ (fun h => hopens (hopens' h)) hnone
  | @ref word _ _ reference hname hopens href =>
    obtain ⟨hword, rfl, hends⟩ := hname
    refine ⟨word, ?_, rfl, ?_⟩
    · rintro rfl
      exact hword
    · intro rest' hends' hopens'
      exact .ref ⟨hword, rfl, hends' hends⟩ (fun h => hopens (hopens' h)) href
  | @quoted text _ htext =>
    refine ⟨'"' :: (text ++ ['"']), by simp, by simp, ?_⟩
    intro rest' _ _
    have : ArgText _ ('"' :: (text ++ '"' :: rest')) rest' := .quoted htext
    simpa using this

theorem ArgsText.not_opens {arg : Arg} {args : List Arg} {cs rest : List Char}
    (h : ArgsText (arg :: args) cs rest) : ¬Opens cs := by
  cases h with
  | cons hgap harg _ =>
    obtain ⟨c, tail, rfl, hc, hparen⟩ := harg.startsToken
    rw [Opens.of_gap hgap]
    exact not_opens_of_token hc hparen

theorem ArgsText.extend {args : List Arg} {cs rest : List Char} (h : ArgsText args cs rest) :
    ∃ q, (args = [] ↔ q = []) ∧ cs = q ++ rest ∧ ∀ rest', (NameEnds rest → NameEnds rest') →
      (Opens rest' → Opens rest) → ArgsText args (q ++ rest') rest' := by
  induction h with
  | nil cs => exact ⟨[], by simp, rfl, fun rest' _ _ => .nil rest'⟩
  | @cons arg args cs start mid rest hgap harg hargs ih =>
    obtain ⟨c, tail, hstart, hc, -⟩ := harg.startsToken
    rw [hstart] at hgap
    obtain ⟨g, rfl, hg⟩ := hgap.exchange hc.ne_newline
    rw [← hstart]
    obtain ⟨a, ha, rfl, harg'⟩ := harg.extend
    obtain ⟨q, hne, rfl, hq⟩ := ih
    refine ⟨g ++ (a ++ q), by simp [ha], by simp, ?_⟩
    intro rest' hends hopens
    have hargs' := hq rest' hends hopens
    have harg'' : ArgText arg (a ++ (q ++ rest')) (q ++ rest') := by
      cases args with
      | nil =>
        obtain rfl := hne.mp rfl
        exact harg' _ hends hopens
      | cons next args =>
        apply harg'
        · exact nameEnds_congr (head?_append_congr (by simp [← hne]) ..)
        · exact fun h => absurd h hargs'.not_opens
    have := ArgsText.cons (hg _) harg'' hargs'
    simpa using this

theorem CallText.extend {call : Call} {cs rest : List Char} (h : CallText call cs rest) :
    ∃ q, cs = q ++ rest ∧ ∀ rest', (NameEnds rest → NameEnds rest') →
      (Opens rest' → Opens rest) → CallText call (q ++ rest') rest' := by
  cases h with
  | @mk name args _ mid _ hname hargs =>
    obtain ⟨hword, rfl, hends⟩ := hname
    obtain ⟨q, hne, rfl, hq⟩ := hargs.extend
    refine ⟨name ++ q, by simp, ?_⟩
    intro rest' hends' hopens'
    have hargs' := hq rest' hends' hopens'
    have hmid : NameEnds (q ++ rest') := by
      cases args with
      | nil =>
        obtain rfl := hne.mp rfl
        exact hends' hends
      | cons arg args => exact nameEnds_congr (head?_append_congr (by simp [← hne]) ..) hends
    have := CallText.mk ⟨hword, rfl, hmid⟩ hargs'
    simpa using this

def Exchangeable (L : List Char → List Char → Prop) (cs rest : List Char) : Prop :=
  ∃ q, q ≠ [] ∧ cs = q ++ rest ∧ ∀ rest', L (q ++ rest') rest'

theorem Closing.exchangeable {cs rest : List Char} (h : Closing cs rest) :
    Exchangeable Closing cs rest := by
  obtain ⟨g, rfl, hg⟩ := Gap.exchange h (by decide)
  refine ⟨g ++ [')'], by simp, by simp, ?_⟩
  intro rest'
  have := hg (')' :: rest')
  simpa [Closing] using this

theorem Closing.not_opens {cs rest : List Char} (h : Closing cs rest) : ¬Opens cs := by
  rw [Opens.of_gap h]
  exact not_opens_of_token (by decide) (by decide)

theorem Opening.exchangeable {L : List Char → List Char → Prop} {cs start rest : List Char}
    (h : Opening cs start) (hL : Exchangeable L start rest) :
    Exchangeable (fun cs rest => ∃ start, Opening cs start ∧ L start rest) cs rest := by
  obtain ⟨paren, hparen, hstart⟩ := h
  obtain ⟨g, rfl, hg⟩ := hparen.exchange (by decide)
  obtain ⟨g', rfl, hg'⟩ := hstart.extend
  obtain ⟨q, hne, rfl, hq⟩ := hL
  refine ⟨g ++ '(' :: (g' ++ q), by simp, by simp, ?_⟩
  intro rest'
  refine ⟨q ++ rest', ⟨g' ++ (q ++ rest'), ?_, ?_⟩, hq rest'⟩
  · have := hg ('(' :: (g' ++ (q ++ rest')))
    simpa using this
  · exact hg' _ (lineEnds_congr (head?_append_congr hne ..))

theorem CallText.exchangeable {L : List Char → List Char → Prop} {call : Call}
    {cs mid rest : List Char} (h : CallText call cs mid) (hL : Exchangeable L mid rest)
    (hopens : ∀ cs rest, L cs rest → ¬Opens cs) :
    Exchangeable (fun cs rest => ∃ mid, CallText call cs mid ∧ L mid rest) cs rest := by
  obtain ⟨q, rfl, hq⟩ := h.extend
  obtain ⟨q', hne, rfl, hq'⟩ := hL
  refine ⟨q ++ q', by simp [hne], by simp, ?_⟩
  intro rest'
  refine ⟨q' ++ rest', ?_, hq' rest'⟩
  rw [List.append_assoc]
  apply hq
  · exact nameEnds_congr (head?_append_congr hne ..)
  · exact fun h => absurd h (hopens _ _ (hq' rest'))

def GapNode (cs rest : List Char) : Prop :=
  ∃ start t, Gap cs start ∧ NodeText (fun _ => ()) t start rest

theorem NodeText.not_opens {σ : Type} {mark : Nat → σ} {t : SyntaxTree σ}
    {cs start rest : List Char} (hgap : Gap cs start) (h : NodeText mark t start rest) :
    ¬Opens cs := by
  obtain ⟨kind, tail, _, rfl, -⟩ := h.starts
  rw [Opens.of_gap hgap]
  apply not_opens_of_token (startsToken_letter kind)
  cases kind <;> decide

theorem GapNode.not_opens {cs rest : List Char} (h : GapNode cs rest) : ¬Opens cs := by
  obtain ⟨start, t, hgap, hnode⟩ := h
  exact hnode.not_opens hgap

section

/-! Nodes keep marks that count from their end, whatever follows them. -/

variable {σ : Type}

def markTo (mark : Int → σ) (rest : List Char) (remaining : Nat) : σ :=
  mark (remaining - rest.length)

theorem markTo_append (mark : Int → σ) (q rest : List Char) :
    markTo mark rest = markTo (fun i => mark (i + q.length)) (q ++ rest) := by
  funext remaining
  unfold markTo
  rw [List.length_append]
  congr 1
  omega

theorem markTo_length (mark : Int → σ) (q rest : List Char) :
    markTo mark rest (q ++ rest).length = mark q.length := by
  unfold markTo
  rw [List.length_append]
  congr 1
  omega

theorem markTo_letter (mark : Int → σ) (c : Char) (q rest rest' : List Char) :
    markTo mark rest (c :: (q ++ rest)).length = markTo mark rest' (c :: (q ++ rest')).length :=
  (markTo_length mark (c :: q) rest).trans (markTo_length mark (c :: q) rest').symm

theorem Exchangeable.markTo_before {mark : Int → σ} {t : SyntaxTree σ} {cs q' rest : List Char}
    (h : Exchangeable
      (fun cs rest => NodeText (markTo (fun i => mark (i + q'.length)) rest) t cs rest)
      cs (q' ++ rest)) :
    ∃ q, q ≠ [] ∧ cs = q ++ (q' ++ rest) ∧
      ∀ rest', NodeText (markTo mark rest') t (q ++ (q' ++ rest')) (q' ++ rest') := by
  obtain ⟨q, hne, hcs, hq⟩ := h
  refine ⟨q, hne, hcs, ?_⟩
  intro rest'
  rw [markTo_append mark q']
  exact hq (q' ++ rest')

mutual

theorem NodeText.exchangeable_markTo (mark : Int → σ) {t : SyntaxTree σ} {cs rest : List Char}
    (h : NodeText (markTo mark rest) t cs rest) :
    Exchangeable (fun cs rest => NodeText (markTo mark rest) t cs rest) cs rest := by
  cases h with
  | sequence hopen hnodes hclose =>
    obtain ⟨q, -, rfl, hq⟩ := hopen.exchangeable (NodesText.exchangeable_markTo mark hnodes hclose)
    refine ⟨'S' :: q, by simp, rfl, ?_⟩
    intro rest'
    obtain ⟨start', hopen', mid', hnodes', hclose'⟩ := hq rest'
    rw [markTo_letter mark 'S' q rest rest']
    exact .sequence hopen' hnodes' hclose'
  | fallback hopen hnodes hclose =>
    obtain ⟨q, -, rfl, hq⟩ := hopen.exchangeable (NodesText.exchangeable_markTo mark hnodes hclose)
    refine ⟨'F' :: q, by simp, rfl, ?_⟩
    intro rest'
    obtain ⟨start', hopen', mid', hnodes', hclose'⟩ := hq rest'
    rw [markTo_letter mark 'F' q rest rest']
    exact .fallback hopen' hnodes' hclose'
  | action hopen hcall hclose =>
    obtain ⟨q, -, rfl, hq⟩ := hopen.exchangeable
      (hcall.exchangeable hclose.exchangeable fun _ _ => Closing.not_opens)
    refine ⟨'A' :: q, by simp, rfl, ?_⟩
    intro rest'
    obtain ⟨start', hopen', mid', hcall', hclose'⟩ := hq rest'
    rw [markTo_letter mark 'A' q rest rest']
    exact .action hopen' hcall' hclose'
  | condition hopen hcall hclose =>
    obtain ⟨q, -, rfl, hq⟩ := hopen.exchangeable
      (hcall.exchangeable hclose.exchangeable fun _ _ => Closing.not_opens)
    refine ⟨'C' :: q, by simp, rfl, ?_⟩
    intro rest'
    obtain ⟨start', hopen', mid', hcall', hclose'⟩ := hq rest'
    rw [markTo_letter mark 'C' q rest rest']
    exact .condition hopen' hcall' hclose'
  | @decorator call t _ _ mid inner last rest hopen hcall hgap hnode hclose =>
    have hchild : Exchangeable (fun cs rest => ∃ inner last, Gap cs inner ∧
        NodeText (markTo mark rest) t inner last ∧ Closing last rest) mid rest := by
      obtain ⟨q', hne', rfl, hq'⟩ := hclose.exchangeable
      rw [markTo_append mark q'] at hnode
      obtain ⟨q, hne, rfl, hq⟩ := (NodeText.exchangeable_markTo _ hnode).markTo_before
      obtain ⟨g, rfl, hg⟩ := hgap.extend
      refine ⟨g ++ (q ++ q'), by simp [hne], by simp, ?_⟩
      intro rest'
      refine ⟨q ++ (q' ++ rest'), q' ++ rest', ?_, hq rest', hq' rest'⟩
      have := hg (q ++ (q' ++ rest')) (lineEnds_congr (head?_append_congr hne ..))
      simpa using this
    have hopens : ∀ cs rest, (∃ inner last, Gap cs inner ∧
        NodeText (markTo mark rest) t inner last ∧ Closing last rest) → ¬Opens cs := by
      rintro cs rest ⟨inner, last, hgap, hnode, -⟩
      exact NodeText.not_opens hgap hnode
    obtain ⟨q, -, rfl, hq⟩ := hopen.exchangeable (hcall.exchangeable hchild hopens)
    refine ⟨'D' :: q, by simp, rfl, ?_⟩
    intro rest'
    obtain ⟨start', hopen', mid', hcall', inner', last', hgap', hnode', hclose'⟩ := hq rest'
    rw [markTo_letter mark 'D' q rest rest']
    exact .decorator hopen' hcall' hgap' hnode' hclose'

theorem NodesText.exchangeable_markTo (mark : Int → σ) {ts : List (SyntaxTree σ)}
    {cs mid rest : List Char}
    (h : NodesText (markTo mark rest) ts cs mid) (hclose : Closing mid rest) :
    Exchangeable
      (fun cs rest => ∃ mid, NodesText (markTo mark rest) ts cs mid ∧ Closing mid rest)
      cs rest := by
  cases h with
  | nil =>
    obtain ⟨q, hne, rfl, hq⟩ := hclose.exchangeable
    exact ⟨q, hne, rfl, fun rest' => ⟨_, .nil _, hq rest'⟩⟩
  | cons hnode hsiblings =>
    -- The marks of the first node count from its own end, which is as far from the last one.
    obtain ⟨q', -, rfl, hq'⟩ := SiblingsText.exchangeable_markTo mark hsiblings hclose
    rw [markTo_append mark q'] at hnode
    obtain ⟨q, hne, rfl, hq⟩ := (NodeText.exchangeable_markTo _ hnode).markTo_before
    refine ⟨q ++ q', by simp [hne], by simp, ?_⟩
    intro rest'
    obtain ⟨mid', hsiblings', hclose'⟩ := hq' rest'
    rw [List.append_assoc]
    exact ⟨mid', .cons (hq rest') hsiblings', hclose'⟩

theorem SiblingsText.exchangeable_markTo (mark : Int → σ) {ts : List (SyntaxTree σ)}
    {cs mid rest : List Char}
    (h : SiblingsText (markTo mark rest) ts cs mid) (hclose : Closing mid rest) :
    Exchangeable
      (fun cs rest => ∃ mid, SiblingsText (markTo mark rest) ts cs mid ∧ Closing mid rest)
      cs rest := by
  cases h with
  | nil =>
    obtain ⟨q, hne, rfl, hq⟩ := hclose.exchangeable
    exact ⟨q, hne, rfl, fun rest' => ⟨_, .nil _, hq rest'⟩⟩
  | cons hcolons hgap hnode hsiblings =>
    obtain ⟨q', -, rfl, hq'⟩ := SiblingsText.exchangeable_markTo mark hsiblings hclose
    rw [markTo_append mark q'] at hnode
    obtain ⟨q, hne, rfl, hq⟩ := (NodeText.exchangeable_markTo _ hnode).markTo_before
    obtain ⟨g', rfl, hg'⟩ := hgap.extend
    obtain ⟨g, rfl, hg⟩ := hcolons.exchange (by decide)
    refine ⟨g ++ ':' :: ':' :: (g' ++ (q ++ q')), by simp, by simp, ?_⟩
    intro rest'
    obtain ⟨mid', hsiblings', hclose'⟩ := hq' rest'
    have hcolons' := hg (':' :: ':' :: (g' ++ (q ++ (q' ++ rest'))))
    have hgap' := hg' (q ++ (q' ++ rest')) (lineEnds_congr (head?_append_congr hne ..))
    have := SiblingsText.cons hcolons' hgap' (hq rest') hsiblings'
    exact ⟨mid', by simpa using this, hclose'⟩

end

end

theorem NodeText.exchangeable {t : SyntaxTree Unit} {cs rest : List Char}
    (h : NodeText (fun _ => ()) t cs rest) : Exchangeable (NodeText (fun _ => ()) t) cs rest :=
  NodeText.exchangeable_markTo (fun _ => ()) h

theorem NodeText.exists_alone {σ : Type} {mark : Nat → σ} {t : SyntaxTree σ} {cs rest : List Char}
    (h : NodeText mark t cs rest) :
    ∃ q, cs = q ++ rest ∧ NodeText (fun remaining => mark (remaining + rest.length)) t q [] := by
  have hmark : mark = markTo (fun i => mark (i + rest.length).toNat) rest := by
    funext remaining
    unfold markTo
    congr 1
    omega
  rw [hmark] at h
  obtain ⟨q, -, rfl, hq⟩ := NodeText.exchangeable_markTo _ h
  have halone := hq []
  rw [List.append_nil] at halone
  exact ⟨q, rfl, halone⟩

theorem CallText.suffix {call : Call} {cs rest : List Char} (h : CallText call cs rest) :
    rest <:+ cs := by
  obtain ⟨q, rfl, -⟩ := h.extend
  exact List.suffix_append q rest

section

variable {σ : Type} {mark : Nat → σ}

theorem NodeText.suffix {t : SyntaxTree σ} {cs rest : List Char} (h : NodeText mark t cs rest) :
    rest <:+ cs := by
  obtain ⟨q, rfl, -⟩ := h.exists_alone
  exact List.suffix_append q rest

theorem SiblingsText.suffix {ts : List (SyntaxTree σ)} {cs rest : List Char}
    (h : SiblingsText mark ts cs rest) : rest <:+ cs := by
  induction ts generalizing cs with
  | nil =>
    cases h
    exact List.suffix_rfl
  | cons t ts ih =>
    cases h with
    | cons hcolons hgap hnode hsiblings =>
      have hcolons := hcolons.suffix
      have := (ih hsiblings).trans (hnode.suffix.trans hgap.suffix)
      exact this.trans ((List.suffix_append [':', ':'] _).trans hcolons)

theorem NodesText.suffix {ts : List (SyntaxTree σ)} {cs rest : List Char}
    (h : NodesText mark ts cs rest) : rest <:+ cs := by
  cases h with
  | nil => exact List.suffix_rfl
  | cons hnode hsiblings => exact hsiblings.suffix.trans hnode.suffix

end

end Grammar

end BattleTree
