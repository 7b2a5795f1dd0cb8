import BattleTree.Proofs.Program.Combinators
import BattleTree.Proofs.Program.Completeness

/-!
This module contains that the parser of programs is the one by recursive descent. At most one
alternative for a node begins with the next letter, so all errors but its own are at the start of
the node, and what is committed is not tried again.
-/

namespace BattleTree

namespace Scanner

variable {α β : Type} {cs rest : List Char}

theorem gap_dropWhile_isSpace (cs : List Char) :
    Grammar.Gap cs (cs.dropWhile Lexeme.isSpace) := by
  induction cs with
  | nil => exact .none []
  | cons c cs ih =>
    cases hc : Lexeme.isSpace c with
    | true =>
      rw [List.dropWhile_cons_of_pos hc]
      exact .blank hc ih
    | false =>
      rw [List.dropWhile_cons_of_neg (by simp [hc])]
      exact .none _

theorem gap_comment (cs : List Char) :
    Grammar.Gap ('/' :: '/' :: cs) (cs.dropWhile (· ≠ '\n')) := by
  have hline : '\n' ∉ cs.takeWhile (· ≠ '\n') := by
    intro h
    simpa using (List.all_eq_true.mp List.all_takeWhile) _ h
  have hends : Grammar.LineEnds (cs.dropWhile (· ≠ '\n')) := by
    intro c hc
    have := List.head?_dropWhile_not (fun c : Char => decide (c ≠ '\n')) cs
    rw [Option.mem_def.mp hc] at this
    simpa using this
  have hgap := Grammar.Gap.comment hline hends (.none _)
  rwa [List.takeWhile_append_dropWhile] at hgap

theorem comment_slashes (cs : List Char) :
    comment ('/' :: '/' :: cs) = .ok ((), cs.dropWhile (· ≠ '\n')) := by
  rfl

theorem comment_of_not {cs : List Char} (h : ∀ rest, cs ≠ '/' :: '/' :: rest) :
    ∃ e, comment cs = .error (.error e) := by
  exact ⟨_, bind_of_eq_error (tag_of_not h)⟩

theorem blanks_of_head {c : Char} (h : Lexeme.isSpace c = true) :
    blanks (c :: cs) = .ok ((), cs.dropWhile Lexeme.isSpace) := by
  exact bind_of_eq_ok (takeWhile1_of_head h .space)

theorem blanks_of_not (h : ∀ c ∈ cs.head?, Lexeme.isSpace c = false) :
    blanks cs = .error (.error (.ofKind cs .space)) := by
  exact bind_of_eq_error (takeWhile1_of_not h .space)

def blank : Scanner Unit :=
  alt [blanks, comment]

theorem blank_cases (cs : List Char) :
    (∃ rest, blank cs = .ok ((), rest) ∧ rest.length < cs.length ∧ Grammar.Gap cs rest) ∨
      (∃ e, blank cs = .error (.error e)) ∧ Lexeme.skip cs = cs := by
  unfold blank alt
  by_cases hspace : ∀ c ∈ cs.head?, Lexeme.isSpace c = false
  · rw [altAfter_of_error (blanks_of_not hspace)]
    by_cases hslashes : ∃ rest, cs = '/' :: '/' :: rest
    · obtain ⟨rest, rfl⟩ := hslashes
      rw [altAfter_of_ne_error (by simp [comment_slashes]), comment_slashes]
      refine .inl ⟨_, rfl, ?_, gap_comment rest⟩
      have := (List.dropWhile_suffix (l := rest) fun c : Char => decide (c ≠ '\n')).length_le
      simp only [List.length_cons]
      omega
    · simp only [not_exists] at hslashes
      obtain ⟨e, he⟩ := comment_of_not hslashes
      rw [altAfter_of_error he]
      refine .inr ⟨⟨_, rfl⟩, ?_⟩
      cases cs with
      | nil => rfl
      | cons c cs =>
        unfold Lexeme.skip
        rw [Lexeme.skipFrom, if_neg (by simp [hspace c rfl])]
        intro rest hc hrest
        exact hslashes rest (by rw [hc, hrest])
  · cases cs with
    | nil => simp at hspace
    | cons c cs =>
      have hc : Lexeme.isSpace c = true := by simpa using hspace
      rw [altAfter_of_ne_error (by simp [blanks_of_head hc]), blanks_of_head hc]
      refine .inl ⟨_, rfl, ?_, .blank hc (gap_dropWhile_isSpace cs)⟩
      have := (List.dropWhile_suffix (l := cs) Lexeme.isSpace).length_le
      rw [List.length_cons]
      omega

theorem exists_manyFrom_blank {fuel : Nat} {cs : List Char} (h : cs.length < fuel) :
    ∃ found, manyFrom blank fuel cs = .ok (found, Lexeme.skip cs) := by
  induction fuel generalizing cs with
  | zero => omega
  | succ fuel ih =>
    rcases blank_cases cs with ⟨rest, hblank, hlt, hgap⟩ | ⟨⟨e, hblank⟩, hskip⟩
    · obtain ⟨found, hfound⟩ := @ih rest (by omega)
      rw [manyFrom_of_ok hblank hlt, Grammar.skip_eq_of_gap hgap]
      exact ⟨_, bind_of_eq_ok hfound⟩
    · rw [manyFrom_of_error hblank, hskip]
      exact ⟨[], rfl⟩

theorem gap_eq (cs : List Char) : gap cs = .ok ((), Lexeme.skip cs) := by
  obtain ⟨found, hfound⟩ := exists_manyFrom_blank (Nat.lt_succ_self cs.length)
  exact bind_of_eq_ok hfound

theorem gap_bind (f : Scanner α) (cs : List Char) : (gap *> f) cs = f (Lexeme.skip cs) := by
  exact bind_of_eq_ok (gap_eq cs)

theorem takeWhile_append {q r : Char → Bool} (h : ∀ c, q c = true → r c = true)
    (cs : List Char) : cs.takeWhile q ++ (cs.dropWhile q).takeWhile r = cs.takeWhile r := by
  induction cs with
  | nil => rfl
  | cons c cs ih =>
    cases hc : q c with
    | true =>
      rw [List.takeWhile_cons_of_pos hc, List.dropWhile_cons_of_pos hc,
        List.takeWhile_cons_of_pos (h c hc), List.cons_append, ih]
    | false =>
      rw [List.takeWhile_cons_of_neg (by simp [hc]), List.dropWhile_cons_of_neg (by simp [hc])]
      rfl

theorem dropWhile_dropWhile {q r : Char → Bool} (h : ∀ c, q c = true → r c = true)
    (cs : List Char) : (cs.dropWhile q).dropWhile r = cs.dropWhile r := by
  induction cs with
  | nil => rfl
  | cons c cs ih =>
    cases hc : q c with
    | true => rw [List.dropWhile_cons_of_pos hc, List.dropWhile_cons_of_pos (h c hc), ih]
    | false => rw [List.dropWhile_cons_of_neg (by simp [hc])]

theorem continuesName_of_startsName (c : Char) (h : Lexeme.startsName c = true) :
    Lexeme.continuesName c = true := by
  unfold Lexeme.startsName at h
  unfold Lexeme.continuesName Char.isAlphanum
  simp only [Bool.or_eq_true] at h ⊢
  exact h.imp_left .inl

theorem identifier_of_name? {word : List Char} (h : Lexeme.name? cs = some (word, rest)) :
    identifier cs = .ok (word, rest) := by
  cases cs with
  | nil => cases h
  | cons c cs =>
    simp only [Lexeme.name?] at h
    split at h
    · next hstart =>
      obtain ⟨rfl, rfl⟩ := Prod.mk.inj (Option.some.inj h)
      unfold identifier
      rw [bind_of_eq_ok (takeWhile1_of_head hstart .takeWhile1)]
      refine (bind_of_eq_ok rfl).trans ?_
      rw [dropWhile_dropWhile continuesName_of_startsName, List.cons_append,
        takeWhile_append continuesName_of_startsName]
      rfl
    · cases h

theorem identifier_of_name?_eq_none (h : Lexeme.name? cs = none) :
    identifier cs = .error (.error (.ofKind cs .takeWhile1)) := by
  have hhead : ∀ c ∈ cs.head?, Lexeme.startsName c = false := by
    intro c hc
    cases cs with
    | nil => cases hc
    | cons d cs =>
      obtain rfl := Option.some.inj hc
      simp only [Lexeme.name?] at h
      split at h
      · cases h
      · next hstart => simpa using hstart
  exact bind_of_eq_error (takeWhile1_of_not hhead .takeWhile1)

theorem paren_of_opens (h : Lexeme.opens cs = true) :
    ∃ rest, (gap *> char '(') cs = .ok ((), rest) := by
  have hhead : (Lexeme.skip cs).head? = some '(' := of_decide_eq_true h
  obtain ⟨rest, hrest⟩ := List.head?_eq_some_iff.mp hhead
  rw [gap_bind, hrest, char_cons]
  exact ⟨rest, rfl⟩

theorem paren_of_not_opens (h : Lexeme.opens cs = false) :
    ∃ e, (gap *> char '(') cs = .error (.error e) := by
  have hhead : (Lexeme.skip cs).head? ≠ some '(' := of_decide_eq_false h
  rw [gap_bind, char_of_ne hhead]
  exact ⟨_, rfl⟩

theorem word_of_word? {name : List Char} (h : Lexeme.word? cs = some (name, rest)) :
    word cs = .ok (.ofWord name, rest) := by
  unfold Lexeme.word? at h
  obtain ⟨⟨name', rest'⟩, hname, h⟩ := Option.bind_eq_some_iff.mp h
  dsimp only at h
  split at h
  · cases h
  · next hopens =>
    obtain ⟨rfl, rfl⟩ := Prod.mk.inj (Option.some.inj h)
    obtain ⟨e, he⟩ := paren_of_not_opens (Bool.eq_false_iff.mpr hopens)
    have hnot : not (gap *> char '(') rest' = .ok ((), rest') := by
      unfold not
      rw [he]
    unfold word
    rw [bind_of_eq_ok (identifier_of_name? hname), bind_of_eq_ok hnot]
    rfl

theorem word_of_word?_eq_none (h : Lexeme.word? cs = none) :
    ∃ e, word cs = .error (.error e) := by
  unfold Lexeme.word? at h
  unfold word
  cases hname : Lexeme.name? cs with
  | none => exact ⟨_, bind_of_eq_error (identifier_of_name?_eq_none hname)⟩
  | some found =>
    obtain ⟨name, rest⟩ := found
    rw [hname] at h
    dsimp only [bind, Option.bind] at h
    split at h
    · next hopens =>
      obtain ⟨rest', hparen⟩ := paren_of_opens hopens
      have hnot : not (gap *> char '(') rest = .error (.error (.ofKind rest .not)) := by
        unfold not
        rw [hparen]
        rfl
      rw [bind_of_eq_ok (identifier_of_name? hname)]
      exact ⟨_, bind_of_eq_error hnot⟩
    · cases h

theorem quoted_of_quoted? {body text : List Char} (h : Lexeme.quoted? body = some (text, rest)) :
    quoted ('"' :: body) = .ok (.quoted (String.ofList text), rest) := by
  unfold Lexeme.quoted? at h
  split at h
  · next c tail hdrop =>
    obtain ⟨rfl, rfl⟩ := Prod.mk.inj (Option.some.inj h)
    have hc := List.head?_dropWhile_not (fun c : Char => decide (c ≠ '"')) body
    rw [hdrop] at hc
    obtain rfl : c = '"' := by simpa using hc
    have htext : (takeWhile (· ≠ '"') <* char '"') body =
        .ok (body.takeWhile (· ≠ '"'), tail) := by
      refine (bind_of_eq_ok rfl).trans ?_
      rw [hdrop]
      exact bind_of_eq_ok (char_cons '"' tail)
    unfold quoted
    rw [bind_of_eq_ok (char_cons '"' body), bind_of_eq_ok (cut_of_eq_ok htext)]
    rfl
  · cases h

theorem quoted_of_quoted?_eq_none {body : List Char} (h : Lexeme.quoted? body = none) :
    quoted ('"' :: body) = .error (.failure (.ofChar [] '"')) := by
  unfold Lexeme.quoted? at h
  split at h
  · cases h
  · next hdrop =>
    have htext : (takeWhile (· ≠ '"') <* char '"') body = .error (.error (.ofChar [] '"')) := by
      refine (bind_of_eq_ok rfl).trans ?_
      rw [hdrop]
      exact bind_of_eq_error rfl
    have hcut : cut (takeWhile (· ≠ '"') <* char '"') body =
        .error (.failure (.ofChar [] '"')) := by
      unfold cut
      rw [htext]
      rfl
    unfold quoted
    rw [bind_of_eq_ok (char_cons '"' body), bind_of_eq_error hcut]

theorem quoted_of_ne (h : '"' ∉ cs.head?) : quoted cs = .error (.error (.ofChar cs '"')) := by
  exact bind_of_eq_error (char_of_ne h)

def argument : Scanner Arg :=
  gap *> alt [quoted, word]

theorem argument_of_word? {name : List Char}
    (h : Lexeme.word? (Lexeme.skip cs) = some (name, rest)) :
    argument cs = .ok (.ofWord name, rest) := by
  have hquote : '"' ∉ (Lexeme.skip cs).head? := by
    intro hquote
    obtain ⟨body, hbody⟩ := List.head?_eq_some_iff.mp hquote
    rw [hbody] at h
    cases h
  have hword := word_of_word? h
  unfold argument alt
  rw [gap_bind, altAfter_of_error (quoted_of_ne hquote), altAfter_of_ne_error, hword]
  rw [hword]
  exact nofun

theorem argument_of_quoted {body : List Char} (h : Lexeme.skip cs = '"' :: body) :
    argument cs = quoted ('"' :: body) := by
  unfold argument
  rw [gap_bind, h]
  apply altAfter_of_ne_error
  cases hquoted : Lexeme.quoted? body with
  | none =>
    rw [quoted_of_quoted?_eq_none hquoted]
    exact nofun
  | some found =>
    rw [quoted_of_quoted? hquoted]
    exact nofun

theorem argument_of_noArg (h : Parser.NoArg cs) : ∃ e, argument cs = .error (.error e) := by
  have hquote : '"' ∉ (Lexeme.skip cs).head? := by
    intro hquote
    obtain ⟨body, hbody⟩ := List.head?_eq_some_iff.mp hquote
    exact h.not_quote body hbody
  obtain ⟨e, he⟩ := word_of_word?_eq_none h.not_word
  unfold argument alt
  rw [gap_bind, altAfter_of_error (quoted_of_ne hquote), altAfter_of_error he]
  exact ⟨_, rfl⟩

theorem length_skip_le (cs : List Char) : (Lexeme.skip cs).length ≤ cs.length := by
  exact Lexeme.length_skipFrom_le false cs

theorem follows_manyFrom_argument {fuel fuel' : Nat} {cs : List Char} (hfuel : cs.length < fuel)
    (hfuel' : cs.length ≤ fuel') :
    Follows cs.length (manyFrom argument fuel cs) (Parser.argsFrom fuel' cs) := by
  induction fuel generalizing fuel' cs with
  | zero => omega
  | succ fuel ih =>
    have hskip := length_skip_le cs
    by_cases hquote : ∃ body, Lexeme.skip cs = '"' :: body
    · obtain ⟨body, hbody⟩ := hquote
      rw [hbody, List.length_cons] at hskip
      obtain ⟨fuel', rfl⟩ : ∃ n, fuel' = n + 1 := ⟨fuel' - 1, by omega⟩
      cases hquoted : Lexeme.quoted? body with
      | none =>
        have harg := (argument_of_quoted hbody).trans (quoted_of_quoted?_eq_none hquoted)
        rw [manyFrom_of_failure harg, Parser.argsFrom_open hbody hquoted]
        exact .error rfl rfl (Nat.zero_le _)
      | some found =>
        obtain ⟨text, rest⟩ := found
        have hlt : rest.length < body.length := by
          rw [(Grammar.quoted?_eq_some_iff.mp hquoted).2, List.length_append, List.length_cons]
          omega
        have harg := (argument_of_quoted hbody).trans (quoted_of_quoted? hquoted)
        -- The rest after the argument is shorter, so that the fuel of both is enough for it.
        have hothers := @ih fuel' rest (by omega) (by omega)
        rw [Parser.argsFrom_quoted hbody hquoted]
        exact follows_manyFrom_of_ok harg (by omega) (hothers.mono (by omega))
    · cases hword : Lexeme.word? (Lexeme.skip cs) with
      | none =>
        have hno : Parser.NoArg cs := ⟨fun body hbody => hquote ⟨body, hbody⟩, hword⟩
        obtain ⟨e, he⟩ := argument_of_noArg hno
        rw [manyFrom_of_error he, Parser.argsFrom_stop fuel' hno]
        exact .ok (Nat.le_refl _)
      | some found =>
        obtain ⟨name, rest⟩ := found
        have hlt := (Grammar.word?_eq_some_iff.mp hword).1.length_lt
        obtain ⟨fuel', rfl⟩ : ∃ n, fuel' = n + 1 := ⟨fuel' - 1, by omega⟩
        have hothers := @ih fuel' rest (by omega) (by omega)
        rw [Parser.argsFrom_word hword]
        exact follows_manyFrom_of_ok (argument_of_word? hword) (by omega)
          (hothers.mono (by omega))

theorem follows_call (cs : List Char) : Follows cs.length (call cs) (Parser.call cs) := by
  unfold call Parser.call
  cases hname : Lexeme.name? cs with
  | none =>
    rw [bind_of_eq_error (context_of_eq_error (identifier_of_name?_eq_none hname) _)]
    have hlabel : (GrammarError.ofKind cs .takeWhile1).addContext cs Expected.name.text =
        ⟨cs, Expected.name.text, true⟩ := by
      exact if_pos (decide_eq_true rfl)
    rw [Halt.map, hlabel]
    exact .error rfl rfl (Nat.le_refl _)
  | some found =>
    obtain ⟨name, rest⟩ := found
    have hlt := (Grammar.name?_eq_some_iff.mp hname).length_lt
    have hcontext : context Expected.name.text identifier cs = .ok (name, rest) := by
      unfold context
      rw [identifier_of_name? hname]
    rw [bind_of_eq_ok hcontext]
    have hargs := follows_manyFrom_argument (Nat.lt_succ_self rest.length) (Nat.le_refl _)
    refine .bind (p := many (gap *> alt [quoted, word])) (hargs.mono (Nat.le_of_lt hlt)) ?_
    intro args rest hrest
    exact .ok hrest

theorem expect_cases (c : Char) (cs : List Char) :
    (∃ rest, Parser.expect c cs = .ok rest ∧ rest.length < cs.length ∧
      (gap *> char c) cs = .ok ((), rest)) ∨
    ∃ start, Parser.expect c cs = .error ⟨start, .char c⟩ ∧ start.length ≤ cs.length ∧
      (gap *> char c) cs = .error (.error (.ofChar start c)) := by
  have hskip := length_skip_le cs
  unfold Parser.expect
  rw [gap_bind]
  cases hstart : Lexeme.skip cs with
  | nil => exact .inr ⟨[], rfl, Nat.zero_le _, rfl⟩
  | cons d rest =>
    rw [hstart, List.length_cons] at hskip
    by_cases hd : d = c
    · subst hd
      exact .inl ⟨rest, if_pos rfl, by omega, char_cons d rest⟩
    · refine .inr ⟨d :: rest, if_neg hd, hskip, ?_⟩
      exact char_of_ne (by simpa [eq_comm] using hd)

theorem siblingsFrom_of_colons (child : Scanner α) (fuel : Nat) {start : List Char}
    (h : Lexeme.skip cs = ':' :: ':' :: start) :
    siblingsFrom child (fuel + 1) cs = (do
      let first ← cut (gap *> child)
      return first :: (← siblingsFrom child fuel) : Scanner (List α)) start := by
  dsimp only [siblingsFrom]
  rw [gap_bind, h]
  rfl

theorem siblingsFrom_of_not (child : Scanner α) (fuel : Nat)
    (h : ∀ start, Lexeme.skip cs ≠ ':' :: ':' :: start) :
    siblingsFrom child (fuel + 1) cs = .ok ([], cs) := by
  dsimp only [siblingsFrom]
  rw [gap_bind, tag_of_not h]

theorem nodes_of_close (child : Scanner α) (h : Lexeme.skip cs = ')' :: rest) :
    nodes child cs = .ok ([], cs) := by
  have hclose : close cs = .ok ((), rest) := by
    refine (gap_bind _ cs).trans ?_
    rw [h, char_cons]
  unfold nodes
  rw [hclose]

theorem nodes_of_not (child : Scanner α) (h : ∀ rest, Lexeme.skip cs ≠ ')' :: rest) :
    nodes child cs = (do
      let first ← gap *> child
      return first :: (← siblings child) : Scanner (List α)) cs := by
  have hclose : close cs = .error (.error (.ofChar (Lexeme.skip cs) ')')) := by
    refine (gap_bind _ cs).trans (char_of_ne ?_)
    intro hmem
    obtain ⟨rest, hrest⟩ := List.head?_eq_some_iff.mp hmem
    exact h rest hrest
  unfold nodes
  rw [hclose]

section

variable {child : Scanner α} {reader : Parser.Reader α}
  (hchild : ∀ cs, Follows cs.length (child cs) (reader cs))

include hchild

theorem follows_gap_child {bound : Nat} (h : cs.length ≤ bound) :
    Follows bound ((gap *> child) cs) (reader (Lexeme.skip cs)) := by
  rw [gap_bind]
  exact (hchild _).mono (Nat.le_trans (length_skip_le cs) h)

theorem follows_siblingsFrom (fuel : Nat) (cs : List Char) :
    Follows cs.length (siblingsFrom child fuel cs) (Parser.siblingsFrom reader fuel cs) := by
  induction fuel generalizing cs with
  | zero => exact .ok (Nat.le_refl _)
  | succ fuel ih =>
    rw [Parser.siblingsFrom]
    split
    · next start hstart =>
      have hskip := length_skip_le cs
      rw [hstart, List.length_cons, List.length_cons] at hskip
      rw [siblingsFrom_of_colons child fuel hstart]
      refine .bind (follows_cut (follows_gap_child hchild (by omega))) ?_
      intro first rest hrest
      refine .bind ((ih rest).mono hrest) ?_
      intro others rest hrest
      exact .ok hrest
    · next hne =>
      rw [siblingsFrom_of_not child fuel hne]
      exact .ok (Nat.le_refl _)

theorem follows_nodes (cs : List Char) :
    Follows cs.length (nodes child cs) (Parser.children reader cs) := by
  unfold Parser.children
  split
  · next rest hrest =>
    rw [nodes_of_close child hrest]
    exact .ok (Nat.le_refl _)
  · next hne =>
    rw [nodes_of_not child hne]
    refine .bind (follows_gap_child hchild (Nat.le_refl _)) ?_
    intro first rest hrest
    have hsiblings := (follows_siblingsFrom hchild rest.length rest).mono hrest
    refine .bind (p := siblings child) hsiblings ?_
    intro others rest hrest
    exact .ok hrest

theorem follows_decorated (cs : List Char) :
    Follows cs.length (decorated child cs) (do
      let (call, rest) ← Parser.call cs
      let (child, rest) ← reader (Lexeme.skip rest)
      return ((call, child), rest)) := by
  refine .bind (follows_call cs) ?_
  intro call rest hrest
  refine .bind (follows_gap_child hchild hrest) ?_
  intro child rest hrest
  exact .ok hrest

end

theorem group_declines {letter : Char} (inner : Scanner α) (build : Nat × α → β)
    (h : letter ∉ cs.head?) : Declines (build <$> group letter inner) cs := by
  have hchar : group letter inner cs = .error (.error (.ofChar cs letter)) := by
    unfold group «open»
    refine (bind_of_eq_ok rfl).trans ?_
    exact bind_of_eq_error (bind_of_eq_error (char_of_ne h))
  exact ⟨_, bind_of_eq_error (f := fun value => pure (build value)) hchar, rfl, rfl⟩

theorem follows_close {bound : Nat} (value : α) (h : cs.length ≤ bound) :
    Follows bound ((close >>= fun _ => (pure value : Scanner α)) cs) (do
      let rest ← Parser.expect ')' cs
      return (value, rest)) := by
  rcases expect_cases ')' cs with ⟨rest, hexpect, hlt, hclose⟩ | ⟨start, hexpect, hle, hclose⟩
  · rw [hexpect, bind_of_eq_ok (p := close) hclose]
    exact .ok (by omega)
  · rw [hexpect, bind_of_eq_error (p := close) hclose]
    exact .error rfl rfl (Nat.le_trans hle h)

theorem follows_inside {inner : Scanner α} {reader : Parser.Reader α}
    (hinner : ∀ cs, Follows cs.length (inner cs) (reader cs)) (cs : List Char) :
    Follows cs.length (cut (do gap; inner <* close) cs) (do
      let (value, rest) ← reader (Lexeme.skip cs)
      let rest ← Parser.expect ')' rest
      return (value, rest)) := by
  apply follows_cut
  change Follows _ ((gap *> (inner <* close)) cs) _
  rw [gap_bind]
  refine .bind ((hinner _).mono (length_skip_le cs)) ?_
  intro value rest hrest
  exact follows_close value hrest

theorem follows_group {letter : Char} {inner : Scanner α} {reader : Parser.Reader α}
    (hinner : ∀ cs, Follows cs.length (inner cs) (reader cs)) (build : Nat × α → β)
    (cs : List Char) :
    Follows cs.length ((build <$> group letter inner) (letter :: cs)) (do
      let start ← Parser.expect '(' cs
      let (built, rest) ← (do
        let (value, rest) ← reader (Lexeme.skip start)
        return (build (cs.length + 1, value), rest))
      let rest ← Parser.expect ')' rest
      return (built, rest)) := by
  have hgroup : (build <$> group letter inner) (letter :: cs) = (do
      «open» letter
      let value ← cut (do gap; inner <* close)
      return build (cs.length + 1, value) : Scanner β) (letter :: cs) := by
    unfold group
    simp only [map_eq_pure_bind, bind_assoc, pure_bind]
    rfl
  rw [hgroup]
  rcases expect_cases '(' cs with ⟨start, hexpect, hlt, hparen⟩ | ⟨start, hexpect, hle, hparen⟩
  · have hopen : «open» letter (letter :: cs) = .ok ((), start) := by
      exact (bind_of_eq_ok (char_cons letter cs)).trans hparen
    rw [hexpect, ok_bind, bind_of_eq_ok hopen]
    have hinside := (follows_inside hinner start).mono (Nat.le_of_lt hlt)
    have hbuilt := @Follows.bind _ _ _ _ _ _ (fun value => pure (build (cs.length + 1, value)))
      (fun (value, rest) => pure (build (cs.length + 1, value), rest)) hinside
      fun _ _ hrest => .ok hrest
    simpa only [bind_assoc, pure_bind] using hbuilt
  · have hopen : «open» letter (letter :: cs) = .error (.error (.ofChar start '(')) := by
      exact (bind_of_eq_ok (char_cons letter cs)).trans hparen
    rw [hexpect, bind_of_eq_error hopen]
    exact .error rfl rfl hle

def alternative (child : Scanner (SyntaxTree Nat)) : Parser.Kind → Scanner (SyntaxTree Nat)
  | .sequence => (fun (mark, children) => .sequence mark children) <$> group 'S' (nodes child)
  | .fallback => (fun (mark, children) => .fallback mark children) <$> group 'F' (nodes child)
  | .action => (fun (mark, call) => .action mark call) <$> group 'A' call
  | .condition => (fun (mark, call) => .condition mark call) <$> group 'C' call
  | .decorator =>
    (fun (mark, call, child) => .decorator mark call child) <$> group 'D' (decorated child)

theorem alternative_declines {kind : Parser.Kind} (child : Scanner (SyntaxTree Nat))
    (h : kind.letter ∉ cs.head?) : Declines (alternative child kind) cs := by
  cases kind <;> exact group_declines _ _ h

theorem follows_alternative {child : Scanner (SyntaxTree Nat)}
    {reader : Parser.Reader (SyntaxTree Nat)}
    (hchild : ∀ cs, Follows cs.length (child cs) (reader cs)) (kind : Parser.Kind)
    (cs : List Char) :
    Follows cs.length (alternative child kind (kind.letter :: cs)) (do
      let start ← Parser.expect '(' cs
      let (tree, rest) ← Parser.body reader kind (cs.length + 1) (Lexeme.skip start)
      let rest ← Parser.expect ')' rest
      return (tree, rest)) := by
  cases kind with
  | sequence =>
    exact @follows_group _ _ 'S' _ _ (follows_nodes hchild)
      (fun (mark, children) => SyntaxTree.sequence mark children) cs
  | fallback =>
    exact @follows_group _ _ 'F' _ _ (follows_nodes hchild)
      (fun (mark, children) => SyntaxTree.fallback mark children) cs
  | action =>
    exact @follows_group _ _ 'A' _ _ follows_call
      (fun (mark, call) => SyntaxTree.action mark call) cs
  | condition =>
    exact @follows_group _ _ 'C' _ _ follows_call
      (fun (mark, call) => SyntaxTree.condition mark call) cs
  | decorator =>
    have h := @follows_group _ _ 'D' _ _ (follows_decorated hchild)
      (fun (mark, call, child) => SyntaxTree.decorator mark call child) cs
    simpa only [bind_assoc, pure_bind, Parser.body, alternative, Parser.Kind.letter] using h

def kinds : List Parser.Kind :=
  [.sequence, .fallback, .action, .condition, .decorator]

theorem node_succ (levels : Nat) :
    node (levels + 1) =
      context Expected.node.text (alt (kinds.map (alternative (node levels)))) := by
  rfl

theorem letter_injective {kind other : Parser.Kind} (h : kind.letter = other.letter) :
    kind = other := by
  have hkind := Parser.Kind.ofChar?_eq_some_iff.mpr h
  rw [Parser.Kind.ofChar?_eq_some_iff.mpr rfl] at hkind
  exact Option.some.inj hkind

theorem declines_of_not_mem {child : Scanner (SyntaxTree Nat)} {kind : Parser.Kind}
    {others : List Parser.Kind} (h : kind ∉ others) (cs : List Char) :
    ∀ q ∈ others.map (alternative child), Declines q (kind.letter :: cs) := by
  intro q hq
  obtain ⟨other, hother, rfl⟩ := List.mem_map.mp hq
  apply alternative_declines
  intro hletter
  rw [letter_injective (Option.some.inj hletter)] at h
  exact h hother

theorem alt_alternatives {child : Scanner (SyntaxTree Nat)} {kind : Parser.Kind} {cs : List Char}
    (h : ∀ e, alternative child kind (kind.letter :: cs) = .error (.error e) →
      e.rest.length ≤ cs.length) :
    alt (kinds.map (alternative child)) (kind.letter :: cs) =
      alternative child kind (kind.letter :: cs) := by
  have hmem : kind ∈ kinds := by cases kind <;> decide
  have hnodup : kinds.Nodup := by decide
  obtain ⟨before, after, hkinds⟩ := List.append_of_mem hmem
  rw [hkinds, List.nodup_append, List.nodup_cons] at hnodup
  obtain ⟨-, ⟨hafter, -⟩, hdisjoint⟩ := hnodup
  have hbefore : kind ∉ before := fun h => hdisjoint kind h kind List.mem_cons_self rfl
  rw [hkinds, List.map_append, List.map_cons]
  apply altAfter_append
  · exact declines_of_not_mem hbefore cs
  · exact declines_of_not_mem hafter cs
  · exact nofun
  · intro e he
    exact Nat.lt_succ_of_le (h e he)

theorem alternatives_decline (child : Scanner (SyntaxTree Nat))
    (h : ∀ c ∈ cs.head?, Parser.Kind.ofChar? c = none) :
    Declines (alt (kinds.map (alternative child))) cs := by
  apply altAfter_of_declines
  · intro q hq
    obtain ⟨kind, -, rfl⟩ := List.mem_map.mp hq
    apply alternative_declines
    intro hletter
    have hnone := h _ hletter
    rw [Parser.Kind.ofChar?_eq_some_iff.mpr rfl] at hnone
    cases hnone
  · exact nofun

theorem follows_node (levels : Nat) (cs : List Char) :
    Follows cs.length (node levels cs) (Parser.node levels cs) := by
  induction levels generalizing cs with
  | zero => exact .error rfl rfl (Nat.le_refl _)
  | succ levels ih =>
    have hnone (h : ∀ c ∈ cs.head?, Parser.Kind.ofChar? c = none) :
        Follows cs.length (node (levels + 1) cs) (.error ⟨cs, .node⟩) := by
      rw [node_succ, context_of_declines _ (alternatives_decline _ h)]
      exact .error rfl rfl (Nat.le_refl _)
    unfold Parser.node
    split
    · exact hnone nofun
    · next letter tail =>
      split
      · next hletter =>
        apply hnone
        rintro _ ⟨⟩
        exact hletter
      · next kind hkind =>
        obtain rfl := Parser.Kind.ofChar?_eq_some_iff.mp hkind
        have h := follows_alternative ih kind tail
        have halt := alt_alternatives fun e he => h.lt_of_eq_error he
        rw [← halt] at h
        rw [node_succ, context_of_follows _ h (Nat.lt_succ_self tail.length)]
        exact h.mono (Nat.le_succ tail.length)

inductive Agrees :
    Except Halt (SyntaxTree Nat × List Char) → Except Failure (SyntaxTree Nat) → Prop where
  | ok (t : SyntaxTree Nat) : Agrees (.ok (t, [])) (.ok t)
  | error {halt : Halt} {failure : Failure} : halt.cause.rest = failure.rest →
      halt.cause.expected = failure.expected.text → Agrees (.error halt) (.error failure)

theorem agrees_program (cs : List Char) : Agrees (program cs) (Parser.program cs) := by
  have hnode := follows_node maxDepth (Lexeme.skip cs)
  have hscan := gap_bind (node maxDepth) cs
  unfold program Parser.program allConsuming
  generalize node maxDepth (Lexeme.skip cs) = x at hnode hscan
  generalize Parser.node maxDepth (Lexeme.skip cs) = y at hnode
  cases hnode with
  | @ok t rest =>
    have htree : (gap *> node maxDepth <* gap) cs = .ok (t, Lexeme.skip rest) := by
      exact (bind_of_eq_ok hscan).trans (bind_of_eq_ok (gap_eq rest))
    rw [bind_of_eq_ok htree]
    dsimp only [bind, Except.bind]
    cases Lexeme.skip rest with
    | nil => exact .ok t
    | cons c rest => exact .error rfl rfl
  | @error halt failure hrest hexpected =>
    have htree : (gap *> node maxDepth <* gap) cs = .error halt := bind_of_eq_error hscan
    rw [bind_of_eq_error htree]
    exact .error hrest hexpected

end Scanner

theorem Program.parse_eq (text : String) :
    parse text =
      match Parser.program text.toList with
      | .ok tree => .ok (tree.map (Span.ofRemaining text.toList))
      | .error failure => .error (.ofFailure text.toList failure) := by
  have h := Scanner.agrees_program text.toList
  unfold parse
  dsimp only
  generalize Scanner.program text.toList = x at h ⊢
  generalize Parser.program text.toList = y at h ⊢
  cases h with
  | ok => rfl
  | error hrest hexpected =>
    dsimp only
    rw [hrest, hexpected]
    rfl

end BattleTree
