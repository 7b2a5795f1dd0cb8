import BattleTree.Proofs.Program.Failure
import BattleTree.Proofs.Program.Following

/-!
This module contains that the errors of malformed programs are at the fault: the text before the
place is the start of some program, and no program goes on with more of the text than the next
token.
-/

namespace BattleTree

open Grammar Lexeme

namespace Parser

theorem bind_pure_error {α β γ : Type} {x : Except Failure (Parsed α)} (g : α → β)
    {k : List Char → Except Failure γ} {f : Failure}
    (h : (do let (_, rest) ← (do let (a, rest) ← x; return (g a, rest)); k rest) = .error f) :
    (do let (_, rest) ← x; k rest) = .error f := by
  cases x with
  | error e => exact h
  | ok found => exact h

theorem not_head_of_expect {c : Char} {cs : List Char} {f : Failure} (h : expect c cs = .error f) :
    ∀ d ∈ (skip cs).head?, d ≠ c := by
  unfold expect at h
  split at h
  · next d rest hskip =>
    split at h
    · cases h
    · next hne =>
      intro d' hd'
      rw [hskip] at hd'
      obtain rfl := Option.some.inj hd'
      exact hne
  · next hskip =>
    rw [hskip]
    simp

theorem points_of_expect {cs : List Char} {f : Failure} (h : expect ')' cs = .error f) :
    Points Closing cs f.rest := by
  rw [rest_of_expect h]
  exact part_closing.points (not_head_of_expect h)

inductive NodeFails (cs : List Char) : List Char → Prop where
  | letter : (∀ c ∈ (skip cs).head?, ¬IsLetter c) → NodeFails cs (skip cs)
  | opening {kind : Kind} {tail : List Char} : skip cs = kind.letter :: tail → ¬Opens tail →
      NodeFails cs (skip tail)
  | inside {kind : Kind} {tail paren rest : List Char} : skip cs = kind.letter :: tail →
      Gap tail ('(' :: paren) → Points (Inside kind) paren rest → NodeFails cs rest

theorem NodeFails.cases {cs rest : List Char} (h : NodeFails cs rest) :
    rest = skip cs ∧ (∀ c ∈ (skip cs).head?, ¬IsLetter c) ∨
      ∃ (kind : Kind) (tail : List Char), skip cs = kind.letter :: tail ∧
        Points (Opened kind) tail rest := by
  cases h with
  | letter hletter => exact .inl ⟨rfl, hletter⟩
  | @opening kind tail hskip hopens =>
    refine .inr ⟨kind, tail, hskip, (part_opened kind).points ?_⟩
    rintro c hc rfl
    apply hopens
    rw [← opens_iff]
    unfold opens
    rw [Option.mem_def.mp hc]
    rfl
  | inside hskip hparen hpoints => exact .inr ⟨_, _, hskip, points_opened hparen hpoints⟩

theorem NodeFails.points_part {L : Language} {A : Char → Prop} (hL : Part L A)
    {cs rest : List Char} (h : NodeFails cs rest) (tail : List Char)
    (hhead : ∀ c ∈ (skip cs).head?, A c → IsLetter c)
    (hcompletes : ∀ cs rest, GapNode cs (tail ++ rest) → L cs rest)
    (hbreaks : ∀ cs rest, L cs rest → (∃ c ∈ (skip cs).head?, IsLetter c) → ∃ mid, GapNode cs mid) :
    Points L cs rest := by
  rcases h.cases with ⟨rfl, hletter⟩ | ⟨kind, opened, hskip, hpoints⟩
  · exact hL.points fun c hc hA => hletter c hc (hhead c hc hA)
  · obtain ⟨gap, rfl, hresumes⟩ := exists_gap hskip
    refine hpoints.lift (gap ++ [kind.letter]) tail (by simp) ?_ ?_
    · intro cs rest hopened
      rw [List.append_assoc]
      exact hcompletes _ rest ((gapNode_letter hresumes cs _).mpr hopened)
    · intro cs rest h
      rw [List.append_assoc] at h
      have hletter := skip_eq_of_gap_token (hresumes (kind.letter :: cs)) (startsToken_letter kind)
      obtain ⟨mid, hnode⟩ := hbreaks _ rest h ⟨_, congrArg List.head? hletter, kind, rfl⟩
      exact ⟨mid, (gapNode_letter hresumes cs mid).mp hnode⟩

theorem NodeFails.points {cs rest : List Char} (h : NodeFails cs rest) :
    Points GapNode cs rest := by
  apply h.points_part part_gapNode []
  · exact fun _ _ hA => hA
  · exact fun _ _ hnode => hnode
  · exact fun _ rest hnode _ => ⟨rest, hnode⟩

theorem not_closing_of_letter {cs rest : List Char} (h : ∃ c ∈ (skip cs).head?, IsLetter c) :
    ¬Closing cs rest := by
  intro hclose
  obtain ⟨c, hc, hletter⟩ := h
  rw [skip_eq_of_gap_token hclose (by decide)] at hc
  obtain rfl := Option.some.inj hc
  exact absurd (startsName_of_isLetter hletter) (by decide)

theorem NodeFails.points_children {cs rest : List Char} (h : NodeFails cs rest)
    (hclose : ∀ c ∈ (skip cs).head?, c ≠ ')') : Points Children cs rest := by
  obtain ⟨tail, htail⟩ := part_siblings.exists_text
  apply h.points_part part_children tail
  · rintro c hc (rfl | hletter)
    · exact absurd rfl (hclose _ hc)
    · exact hletter
  · intro cs rest hnode
    exact children_iff.mpr (.inr ⟨tail ++ rest, hnode, htail rest⟩)
  · intro cs rest hchildren hletter
    rcases children_iff.mp hchildren with hclose | ⟨mid, hnode, -⟩
    · exact absurd hclose (not_closing_of_letter hletter)
    · exact ⟨mid, hnode⟩

section

variable {levels : Nat} {child : Reader (SyntaxTree Nat)}

def Blames (child : Reader (SyntaxTree Nat)) : Prop :=
  ∀ {cs : List Char} {f : Failure}, child (skip cs) = .error f → f.expected ≠ .shallower →
    NodeFails cs f.rest

theorem gapNode_of_child (hsound : Sound (fun _ => ()) levels child) {t : SyntaxTree Nat}
    {cs rest : List Char} (h : child (skip cs) = .ok (t, rest)) : GapNode cs rest := by
  exact ⟨skip cs, _, gap_skip cs, (hsound h).1⟩

theorem points_of_siblings_end {cs : List Char} {f : Failure} (h : expect ')' cs = .error f)
    (hcolons : ∀ start, skip cs ≠ ':' :: ':' :: start) : Points Siblings cs f.rest := by
  rw [rest_of_expect h]
  exact points_siblings (not_head_of_expect h) hcolons

theorem points_of_siblingsFrom (hsound : Sound (fun _ => ()) levels child) (hchild : Blames child)
    {fuel : Nat} {cs : List Char} {f : Failure}
    (h : (do let (_, rest) ← siblingsFrom child fuel cs; expect ')' rest) = .error f)
    (hf : f.expected ≠ .shallower) (hfuel : cs.length ≤ fuel) : Points Siblings cs f.rest := by
  induction fuel generalizing cs with
  | zero =>
    obtain rfl := List.length_eq_zero_iff.mp (Nat.le_zero.mp hfuel)
    exact points_of_siblings_end h (by simp [skip, skipFrom])
  | succ fuel ih =>
    unfold siblingsFrom at h
    split at h
    · next start hskip =>
      obtain ⟨gap, rfl, hresumes⟩ := exists_gap hskip
      -- The node after the colons fails, or it is read and what comes after it fails.
      cases hnode : child (skip start) with
      | error g =>
        rw [hnode] at h
        obtain rfl := Except.error.inj h
        obtain ⟨tail, htail⟩ := part_siblings.exists_text
        refine (hchild hnode hf).points.lift (gap ++ [':', ':']) tail (by simp) ?_ ?_
        · intro cs rest hnode
          rw [List.append_assoc]
          exact (siblings_colons hresumes cs rest).mpr ⟨_, hnode, htail rest⟩
        · intro cs rest h
          rw [List.append_assoc] at h
          obtain ⟨mid, hnode, -⟩ := (siblings_colons hresumes cs rest).mp h
          exact ⟨mid, hnode⟩
      | ok found =>
        obtain ⟨t, mid⟩ := found
        have hfirst := gapNode_of_child hsound hnode
        have hlength := hfirst.suffix.length_le
        have hmid : mid.length ≤ fuel := by
          simp only [List.length_append, List.length_cons] at hfuel
          omega
        rw [hnode] at h
        have hsiblings := ih (bind_pure_error (t :: ·) h) hmid
        refine points_after_node hfirst hsiblings (gap ++ [':', ':']) (by simp) ?_
        intro cs last _ rest
        rw [List.append_assoc]
        exact siblings_colons hresumes cs rest
    · next hne => exact points_of_siblings_end h hne

theorem points_of_children (hsound : Sound (fun _ => ()) levels child) (hchild : Blames child)
    {cs : List Char} {f : Failure}
    (h : (do let (_, rest) ← children child (skip cs); expect ')' rest) = .error f)
    (hf : f.expected ≠ .shallower) : Points Children cs f.rest := by
  unfold children at h
  rw [skip_skip] at h
  split at h
  · next tail hskip =>
    have hexpect : expect ')' (skip cs) = .error f := h
    have hclose := not_head_of_expect hexpect
    rw [skip_skip, hskip] at hclose
    exact absurd rfl (hclose ')' rfl)
  · next hne =>
    have hclose : ∀ c ∈ (skip cs).head?, c ≠ ')' := by
      rintro c hc rfl
      exact hne _ (List.eq_cons_of_mem_head? hc)
    cases hnode : child (skip cs) with
    | error g =>
      rw [hnode] at h
      obtain rfl := Except.error.inj h
      exact (hchild hnode hf).points_children hclose
    | ok found =>
      obtain ⟨t, mid⟩ := found
      rw [hnode] at h
      have hsiblings := points_of_siblingsFrom hsound hchild (bind_pure_error (t :: ·) h) hf
        (Nat.le_refl mid.length)
      refine points_after_node (gapNode_of_child hsound hnode) hsiblings [] rfl ?_
      intro cs last hlast rest
      rw [List.nil_append, children_iff]
      exact or_iff_right (not_closing_of_letter hlast.starts)

end

theorem nameEnds_quote {cs : List Char} (h : NameEnds cs) (rest : List Char) :
    NameEnds (cs ++ '"' :: rest) := by
  cases cs with
  | nil => simp [NameEnds, continuesName]
  | cons c cs => exact h

theorem exists_argsText_of_argsFrom_error {fuel : Nat} {cs : List Char} {f : Failure}
    (h : argsFrom fuel cs = .error f) (rest : List Char) :
    ∃ arg args, ArgsText (arg :: args) (cs ++ '"' :: rest) rest := by
  -- Arguments end with an open quote if they are refused, so a quote completes them.
  induction fuel generalizing cs with
  | zero => cases h
  | succ fuel ih =>
    unfold argsFrom at h
    split at h
    · next body hskip =>
      obtain ⟨gap, rfl, hresumes⟩ := exists_gap hskip
      split at h
      · next text mid hquoted =>
        obtain ⟨htext, rfl⟩ := quoted?_eq_some_iff.mp hquoted
        rcases bind_eq_error_iff.mp h with h | ⟨_, -, h⟩
        · obtain ⟨arg, args, hargs⟩ := ih h
          have := ArgsText.cons (hresumes _) (.quoted htext) hargs
          exact ⟨_, _, by simpa using this⟩
        · cases h
      · next hnone =>
        have htext : '"' ∉ body := by
          intro hmem
          unfold quoted? at hnone
          split at hnone
          · cases hnone
          · next hdrop => simpa using List.dropWhile_eq_nil_iff.mp hdrop '"' hmem
        have := ArgsText.cons (hresumes _) (.quoted htext) (.nil rest)
        exact ⟨_, _, by simpa using this⟩
    · next start hskip =>
      split at h
      · next word mid hword =>
        obtain ⟨hname, -⟩ := word?_eq_some_iff.mp hword
        rcases bind_eq_error_iff.mp h with h | ⟨_, -, h⟩
        · obtain ⟨arg, args, hargs⟩ := ih h
          obtain ⟨c, tail, hstart, -⟩ := hname.startsToken
          obtain ⟨gap, rfl, hresumes⟩ := exists_gap hstart
          obtain ⟨hname, heq, hends⟩ := hname
          have harg := argText_of_word ⟨hname, rfl, nameEnds_quote hends rest⟩ hargs.not_opens
          have := ArgsText.cons (hresumes _) harg hargs
          rw [← hstart, heq]
          exact ⟨_, _, by simpa using this⟩
        · cases h
      · cases h

theorem noArg_of_argsFrom {fuel : Nat} {args : List Arg} {cs rest : List Char}
    (h : argsFrom fuel cs = .ok (args, rest)) (hfuel : cs.length ≤ fuel) : NoArg rest := by
  induction fuel generalizing args cs with
  | zero =>
    obtain rfl := List.length_eq_zero_iff.mp (Nat.le_zero.mp hfuel)
    obtain ⟨-, rfl⟩ := Prod.mk.inj (Except.ok.inj h)
    exact noArg_of_symbol (by simp [skip, skipFrom])
  | succ fuel ih =>
    have hgap := (gap_skip cs).suffix.length_le
    unfold argsFrom at h
    split at h
    · next body hskip =>
      rw [hskip] at hgap
      split at h
      · next text mid hquoted =>
        obtain ⟨-, rfl⟩ := quoted?_eq_some_iff.mp hquoted
        obtain ⟨⟨others, _⟩, hothers, h⟩ := bind_eq_ok_iff.mp h
        obtain ⟨-, rfl⟩ := Prod.mk.inj (Except.ok.inj h)
        simp only [List.length_append, List.length_cons] at hgap
        exact ih hothers (by omega)
      · cases h
    · next hquote =>
      split at h
      · next word mid hword =>
        have hlength := (word?_eq_some_iff.mp hword).1.length_lt
        obtain ⟨⟨others, _⟩, hothers, h⟩ := bind_eq_ok_iff.mp h
        obtain ⟨-, rfl⟩ := Prod.mk.inj (Except.ok.inj h)
        exact ih hothers (by omega)
      · next hword =>
        obtain ⟨-, rfl⟩ := Prod.mk.inj (Except.ok.inj h)
        exact ⟨fun body hskip => hquote body hskip, hword⟩

section

variable {K : Language} {Starts : List Char → Prop}

theorem points_of_call (hK : Follows K Starts) {cs : List Char} {f : Failure}
    (h : call (skip cs) = .error f) : Points (CallThen K) cs f.rest := by
  obtain ⟨A, hpart, -⟩ := hK.exists_part
  unfold call at h
  split at h
  · next name mid hname =>
    rcases bind_eq_error_iff.mp h with h | ⟨_, -, h⟩
    · -- The quote that is still open makes everything up to the end a part of the call.
      rw [rest_of_argsFrom h]
      obtain ⟨last, hlast⟩ := hpart.exists_line
      refine ⟨cs, [], [], by simp, rfl, Piece.nil.excess [], ⟨'"' :: '\n' :: last, ?_⟩, by simp⟩
      intro rest
      have hcall : GapCall (cs ++ '"' :: '\n' :: (last ++ rest)) ('\n' :: (last ++ rest)) := by
        have htext := name?_eq_some_iff.mp hname
        obtain ⟨c, tail, hskip, -⟩ := htext.startsToken
        obtain ⟨gap, rfl, hresumes⟩ := exists_gap hskip
        obtain ⟨hname, heq, hends⟩ := htext
        obtain ⟨arg, args, hargs⟩ :=
          exists_argsText_of_argsFrom_error h ('\n' :: (last ++ rest))
        rw [← hskip, heq, List.append_assoc, List.append_assoc]
        exact ⟨_, _, hresumes _, .mk ⟨hname, rfl, nameEnds_quote hends _⟩ hargs⟩
      exact ⟨_, hcall, hlast rest⟩
    · cases h
  · next hnone =>
    obtain rfl := Except.error.inj h
    apply (part_callThen hpart).points
    intro c hc hstarts
    rw [List.eq_cons_of_mem_head? hc] at hnone
    simp [name?, hstarts] at hnone

end

theorem gapCall_of_call {c : Call} {cs rest : List Char} (h : call (skip cs) = .ok (c, rest)) :
    GapCall cs rest ∧ NoArg rest := by
  refine ⟨⟨skip cs, c, gap_skip cs, callText_of_call h⟩, ?_⟩
  unfold call at h
  split at h
  · next name mid hname =>
    obtain ⟨⟨args, _⟩, hargs, h⟩ := bind_eq_ok_iff.mp h
    obtain ⟨-, rfl⟩ := Prod.mk.inj (Except.ok.inj h)
    exact noArg_of_argsFrom hargs (Nat.le_refl _)
  · cases h

theorem points_of_closing {cs mid last : List Char} {f : Failure} (hcall : GapCall cs mid)
    (hnode : GapNode mid last) (h : expect ')' last = .error f) :
    Points (CallThen LastNode) cs f.rest := by
  obtain ⟨q, rfl, hq⟩ := hnode.exists_prefix
  have hne : q ≠ [] := by
    rintro rfl
    obtain ⟨c, hc, -⟩ := (hq []).starts
    cases hc
  apply points_after_call hcall hne ?_ (points_of_expect h) []
  · intro cs rest hclose
    exact ⟨cs, hq cs, hclose⟩
  · rintro cs rest ⟨mid, hmid, hclose⟩
    obtain rfl := (hq cs).unique hmid
    exact ⟨rest, hclose⟩
  · intro cs
    exact ⟨(hq cs).noArg, (hq cs).not_opens⟩

theorem NodeFails.points_call {cs mid rest : List Char} (h : NodeFails mid rest)
    (hcall : GapCall cs mid) (hmid : NoArg mid) : Points (CallThen LastNode) cs rest := by
  cases h with
  | letter hletter =>
    apply follows_lastNode.points hcall hmid
    rintro ⟨kind, tail, hskip, -⟩
    rw [hskip] at hletter
    exact hletter _ rfl ⟨kind, rfl⟩
  | opening hskip hopens => exact points_of_letter hcall hmid hskip hopens
  | inside hskip hparen hpoints => exact points_of_inside hcall hskip hparen hpoints

section

variable {levels : Nat} {child : Reader (SyntaxTree Nat)}

theorem points_of_decorator (hsound : Sound (fun _ => ()) levels child) (hchild : Blames child)
    {cs mid : List Char} {f : Failure} (hcall : GapCall cs mid) (hmid : NoArg mid)
    (h : (do let (_, rest) ← child (skip mid); expect ')' rest) = .error f)
    (hf : f.expected ≠ .shallower) : Points (CallThen LastNode) cs f.rest := by
  rcases bind_eq_error_iff.mp h with h | ⟨⟨t, rest⟩, ht, h⟩
  · exact (hchild h hf).points_call hcall hmid
  · exact points_of_closing hcall (gapNode_of_child hsound ht) h

theorem points_of_body (hsound : Sound (fun _ => ()) levels child) (hchild : Blames child)
    {kind : Kind} {mark : Nat} {cs : List Char} {f : Failure}
    (h : (do let (_, rest) ← body child kind mark (skip cs); expect ')' rest) = .error f)
    (hf : f.expected ≠ .shallower) : Points (Inside kind) cs f.rest := by
  cases kind with
  | sequence =>
    have hchildren := bind_pure_error (SyntaxTree.sequence mark) h
    exact points_of_children hsound hchild hchildren hf
  | fallback =>
    have hchildren := bind_pure_error (SyntaxTree.fallback mark) h
    exact points_of_children hsound hchild hchildren hf
  | action | condition =>
    dsimp only [body, bind, Except.bind] at h
    cases hcall : call (skip cs) with
    | error g =>
      rw [hcall] at h
      obtain rfl := Except.error.inj h
      exact points_of_call follows_closing hcall
    | ok found =>
      rw [hcall] at h
      obtain ⟨hgapCall, hnoArg⟩ := gapCall_of_call hcall
      have hexpect : expect ')' found.2 = .error f := h
      rw [rest_of_expect hexpect]
      apply follows_closing.points hgapCall hnoArg
      intro hhead
      exact absurd rfl (not_head_of_expect hexpect ')' hhead)
  | decorator =>
    dsimp only [body, bind, Except.bind] at h
    cases hcall : call (skip cs) with
    | error g =>
      rw [hcall] at h
      obtain rfl := Except.error.inj h
      exact points_of_call follows_lastNode hcall
    | ok found =>
      rw [hcall] at h
      obtain ⟨hgapCall, hnoArg⟩ := gapCall_of_call hcall
      have hnode := bind_pure_error (SyntaxTree.decorator mark found.1) h
      exact points_of_decorator hsound hchild hgapCall hnoArg hnode hf

theorem blames_node (levels : Nat) : Blames (node levels) := by
  induction levels with
  | zero =>
    -- With no levels left, nothing but the nesting is refused.
    intro cs f h hf
    obtain rfl := Except.error.inj h
    exact absurd rfl hf
  | succ levels ih =>
    intro cs f h hf
    unfold node at h
    split at h
    · next hskip =>
      obtain rfl := Except.error.inj h
      exact .letter (by simp [hskip])
    · next letter tail hskip =>
      split at h
      · next hnone =>
        obtain rfl := Except.error.inj h
        apply NodeFails.letter
        rw [hskip]
        rintro c hc ⟨kind, rfl⟩
        obtain rfl := Option.some.inj hc
        rw [Kind.ofChar?_eq_some_iff.mpr rfl] at hnone
        cases hnone
      · next kind hkind =>
        obtain rfl := Kind.ofChar?_eq_some_iff.mp hkind
        rcases bind_eq_error_iff.mp h with h | ⟨start, hstart, h⟩
        · rw [rest_of_expect h]
          apply NodeFails.opening hskip
          rintro ⟨rest, hopen⟩
          have hparen := skip_eq_of_gap_token hopen (by decide)
          have hhead := not_head_of_expect h
          rw [hparen] at hhead
          exact absurd rfl (hhead '(' rfl)
        · have hbody : (do
              let (_, rest) ← body (node levels) kind (skip cs).length (skip start)
              expect ')' rest) = .error f := by
            rw [bind_eq_error_iff] at h ⊢
            rcases h with h | ⟨found, hfound, h⟩
            · exact .inl h
            · rcases bind_eq_error_iff.mp h with h | ⟨_, -, h⟩
              · exact .inr ⟨found, hfound, h⟩
              · cases h
          have hpoints := points_of_body (sound_node _ levels) ih hbody hf
          exact .inside hskip (gap_of_expect hstart) hpoints

end

end Parser

namespace Grammar

theorem viable_iff {cs : List Char} :
    Viable cs ↔ ∃ tail mid, GapNode (cs ++ tail) mid ∧ Gap mid [] := by
  constructor
  · rintro ⟨tail, t, start, mid, hgap, hnode, hend⟩
    exact ⟨tail, mid, ⟨start, t, hgap, hnode⟩, hend⟩
  · rintro ⟨tail, mid, ⟨start, t, hgap, hnode⟩, hend⟩
    exact ⟨tail, t, start, mid, hgap, hnode, hend⟩

theorem Viable.of_append {cs tail : List Char} (h : Viable (cs ++ tail)) : Viable cs := by
  obtain ⟨rest, t, htext⟩ := h
  exact ⟨tail ++ rest, t, by rwa [← List.append_assoc]⟩

/-- How far a text goes on like a program: no program starts with the next character as well. -/
structure Reach (before mid after : List Char) : Prop where
  viable : Viable (before ++ mid)
  excess : Excess mid after
  breaks : ∀ c ∈ after.head?, ¬Viable (before ++ (mid ++ [c]))

theorem Reach.prefix_of_viable {before mid after p : List Char} (h : Reach before mid after)
    (hp : p <+: before ++ (mid ++ after)) (hviable : Viable p) : p <+: before ++ mid := by
  rw [← List.append_assoc] at hp
  rcases List.prefix_or_prefix_of_prefix hp (List.prefix_append ..) with hle | ⟨tail, rfl⟩
  · exact hle
  · cases tail with
    | nil => simp
    | cons c tail =>
      -- The first character past the window is where the text stops to go on like a program.
      have hc : c ∈ after.head? := by
        obtain ⟨after, rfl⟩ : ∃ rest, after = c :: rest := by
          obtain ⟨rest, hrest⟩ := (List.prefix_append_right_inj _).mp hp
          exact ⟨tail ++ rest, hrest.symm⟩
        rfl
      have hlonger : Viable (before ++ (mid ++ [c]) ++ tail) := by simpa using hviable
      exact absurd hlonger.of_append (h.breaks c hc)

theorem exists_reach_of_points {cs rest : List Char} (h : Points GapNode cs rest) :
    ∃ before mid after, cs = before ++ (mid ++ after) ∧ rest = mid ++ after ∧
      Reach before mid after := by
  obtain ⟨before, mid, after, hcs, hrest, hexcess, ⟨tail, htail⟩, hbreaks⟩ := h
  refine ⟨before, mid, after, hcs, hrest, ?_, hexcess, ?_⟩
  · have := htail []
    exact viable_iff.mpr ⟨tail, [], by simpa using this, .none []⟩
  · intro c hc hviable
    obtain ⟨next, last, hnode, -⟩ := viable_iff.mp hviable
    exact hbreaks c hc next last (by simpa using hnode)

theorem exists_reach_of_end {cs rest : List Char} (hnode : GapNode cs rest) :
    ∃ before mid after, cs = before ++ (mid ++ after) ∧ skip rest = mid ++ after ∧
      Reach before mid after := by
  obtain ⟨q, rfl, hq⟩ := hnode.exists_prefix
  obtain ⟨gap, mid, after, hstop⟩ := exists_stop rest
  refine ⟨q ++ gap, mid, after, ?_, hstop.skip_eq, ?_, hstop.excess, ?_⟩
  · rw [List.append_assoc, ← hstop.text_eq]
  · obtain ⟨tail, htail⟩ := hstop.resumes
    have hend := (htail []).trans (.blank (by decide) (.none []))
    have := hq (gap ++ (mid ++ (tail ++ ['\n'])))
    exact viable_iff.mpr ⟨tail ++ ['\n'], _, by simpa using this, hend⟩
  · intro c hc hviable
    obtain ⟨tail, last, hlast, hend⟩ := viable_iff.mp hviable
    have hstays := hstop.stays c hc tail
    have hsame : GapNode (q ++ (gap ++ (mid ++ c :: tail))) last := by simpa using hlast
    obtain rfl := (hq _).unique hsame
    rw [skip_eq_of_gap hend] at hstays
    simp [skip, skipFrom] at hstays

theorem exists_reach_of_program {cs : List Char} {f : Failure} (h : Parser.program cs = .error f)
    (hf : f.expected ≠ .shallower) :
    ∃ before mid after, cs = before ++ (mid ++ after) ∧ f.rest = mid ++ after ∧
      Reach before mid after := by
  rcases bind_eq_error_iff.mp h with h | ⟨⟨t, rest⟩, ht, h⟩
  · exact exists_reach_of_points (Parser.blames_node maxDepth h hf).points
  · have hnode := Parser.gapNode_of_child (Parser.sound_node _ maxDepth) ht
    dsimp only at h
    split at h
    · cases h
    · obtain rfl := Except.error.inj h
      exact exists_reach_of_end hnode

end Grammar

namespace Program

theorem viable_of_parse {text : String} {e : ParseError} (h : parse text = .error e)
    (hnesting : e.expected ≠ "nesting at most 64 deep") :
    ∃ before mid after, text.toList = before ++ (mid ++ after) ∧ e.span.Locates before ∧
      Viable before ∧ Viable (before ++ mid) ∧
      (∀ p, p <+: text.toList → Viable p → p <+: before ++ mid) ∧ Excess mid after := by
  obtain ⟨f, hf, rfl⟩ := exists_failure_of_parse h
  have hexpected : f.expected ≠ .shallower := by
    intro heq
    apply hnesting
    rw [← text_shallower, ← heq]
    rfl
  obtain ⟨before, mid, after, htext, hrest, hreach⟩ := exists_reach_of_program hf hexpected
  refine ⟨before, mid, after, htext, ?_, hreach.viable.of_append, hreach.viable, ?_,
    hreach.excess⟩
  · unfold ParseError.ofFailure
    rw [htext, hrest]
    apply Span.locates_ofRemaining
  · intro p hp hviable
    rw [htext] at hp
    exact hreach.prefix_of_viable hp hviable

theorem viable_of_parse_swim :
    parse "D(is_armed Swim // to\n (self) S())" =
      .error ⟨⟨12, 1, 13⟩, (Expected.char '(').text, "wim"⟩ ∧
    (Expected.char '(').text ≠ "nesting at most 64 deep" ∧
    ∃ before mid after, "D(is_armed Swim // to\n (self) S())".toList = before ++ (mid ++ after) ∧
      Span.Locates ⟨12, 1, 13⟩ before ∧ Viable (before ++ mid) ∧ Excess mid after := by
  -- The word before the parenthesis is no argument, but its letter could have started a node.
  have hparse : parse "D(is_armed Swim // to\n (self) S())" =
      .error ⟨⟨12, 1, 13⟩, (Expected.char '(').text, "wim"⟩ := by
    rw [parse_eq]
    rfl
  have hnesting : (Expected.char '(').text ≠ "nesting at most 64 deep" := by decide
  obtain ⟨before, mid, after, htext, hlocates, -, hviable, -, hexcess⟩ :=
    viable_of_parse hparse hnesting
  exact ⟨hparse, hnesting, before, mid, after, htext, hlocates, hviable, hexcess⟩

end Program

end BattleTree
