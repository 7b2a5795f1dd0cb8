import BattleTree.Proofs.Program.Nesting

/-!
This module contains the places of nodes in programs: each node is marked with the place of the
letter that it starts with, places grow in preorder, and the text of a node is a program of its own,
in which the same nodes stand at the same places relative to its start.
-/

namespace BattleTree

namespace Span

def within (base p : Span) : Span :=
  { offset := base.offset + p.offset
    line := base.line + (p.line - 1)
    column := if p.line = 1 then base.column + (p.column - 1) else p.column }

theorem next_within {p : Span} (base : Span) (hline : 0 < p.line) (hcolumn : 0 < p.column)
    (c : Char) : (base.within p).next c = base.within (p.next c) := by
  unfold next
  by_cases hc : c = '\n'
  · rw [if_pos hc, if_pos hc]
    simp only [within, mk.injEq]
    rw [if_neg (by omega)]
    exact ⟨Nat.add_assoc .., by omega, rfl⟩
  · rw [if_neg hc, if_neg hc]
    simp only [within, mk.injEq]
    refine ⟨Nat.add_assoc .., trivial, ?_⟩
    split <;> omega

theorem after_append (before part : List Char) :
    after (before ++ part) = (after before).within (after part) := by
  induction part using List.reverseRecOn with
  | nil =>
    rw [List.append_nil]
    rfl
  | append_singleton part c ih =>
    have hpart := locates_after part
    have hline : 0 < (after part).line := by
      rw [hpart.line_eq]
      omega
    have hcolumn : 0 < (after part).column := by
      rw [hpart.column_eq]
      omega
    rw [← List.append_assoc, after_concat, after_concat, ih, next_within _ hline hcolumn]

theorem within_ofRemaining (before part rest : List Char) {remaining : Nat}
    (h : remaining ≤ part.length) :
    (after before).within (ofRemaining part remaining) =
      ofRemaining (before ++ (part ++ rest)) (remaining + rest.length) := by
  have hlength : (before ++ (part ++ rest)).length - (remaining + rest.length) =
      before.length + (part.length - remaining) := by
    simp only [List.length_append]
    omega
  unfold ofRemaining
  rw [hlength, List.take_length_add_append, List.take_append_of_le_length (Nat.sub_le ..),
    after_append]

theorem ofRemaining_length (before rest : List Char) :
    ofRemaining (before ++ rest) rest.length = after before := by
  unfold ofRemaining
  rw [List.length_append, Nat.add_sub_cancel, List.take_left]

theorem offset_after_lt (before : List Char) {part : List Char} (h : part ≠ []) :
    (after before).offset < (after (before ++ part)).offset := by
  have hpos : (String.ofList part).utf8ByteSize ≠ 0 := by
    rw [Ne, String.utf8ByteSize_eq_zero_iff]
    simpa using h
  rw [(locates_after before).offset_eq, (locates_after (before ++ part)).offset_eq,
    String.ofList_append, String.utf8ByteSize_append]
  omega

theorem offset_ofRemaining_lt {text : List Char} {m n : Nat} (hmn : m < n)
    (hn : n ≤ text.length) : (ofRemaining text n).offset < (ofRemaining text m).offset := by
  have htake : text.take (text.length - m) =
      text.take (text.length - n) ++ (text.drop (text.length - n)).take (n - m) := by
    rw [← List.take_add]
    congr 1
    omega
  unfold ofRemaining
  rw [htake]
  apply offset_after_lt
  apply List.ne_nil_of_length_pos
  rw [List.length_take, List.length_drop]
  omega

end Span

namespace SyntaxTree

variable {σ τ : Type}

def letter : SyntaxTree σ → Char
  | sequence .. => 'S'
  | fallback .. => 'F'
  | action .. => 'A'
  | condition .. => 'C'
  | decorator .. => 'D'

theorem mark_map (f : σ → τ) (t : SyntaxTree σ) : (t.map f).mark = f t.mark := by
  cases t <;> rfl

theorem self_mem_preorder (t : SyntaxTree σ) : t ∈ t.preorder := by
  cases t <;> simp [preorder]

mutual

theorem preorder_map (f : σ → τ) (t : SyntaxTree σ) :
    (t.map f).preorder = t.preorder.map (map f) := by
  cases t with
  | sequence m ts | fallback m ts => simp [map, preorder, preorderAll_mapAll f ts]
  | action m call | condition m call => simp [map, preorder]
  | decorator m call t => simp [map, preorder, preorder_map f t]

theorem preorderAll_mapAll (f : σ → τ) (ts : List (SyntaxTree σ)) :
    preorderAll (mapAll f ts) = (preorderAll ts).map (map f) := by
  cases ts with
  | nil => rfl
  | cons t ts => simp [mapAll, preorderAll, preorder_map f t, preorderAll_mapAll f ts]

end

mutual

theorem map_congr {f g : σ → τ} (t : SyntaxTree σ) (h : ∀ u ∈ t.preorder, f u.mark = g u.mark) :
    t.map f = t.map g := by
  have hself := h t t.self_mem_preorder
  cases t with
  | sequence m ts | fallback m ts =>
    rw [preorder, List.forall_mem_cons] at h
    simp only [mark] at hself
    rw [map, map, mapAll_congr ts h.2, hself]
  | action m call | condition m call =>
    simp only [mark] at hself
    rw [map, map, hself]
  | decorator m call t =>
    rw [preorder, List.forall_mem_cons] at h
    simp only [mark] at hself
    rw [map, map, map_congr t h.2, hself]

theorem mapAll_congr {f g : σ → τ} (ts : List (SyntaxTree σ))
    (h : ∀ u ∈ preorderAll ts, f u.mark = g u.mark) : mapAll f ts = mapAll g ts := by
  cases ts with
  | nil => rfl
  | cons t ts =>
    rw [preorderAll, List.forall_mem_append] at h
    rw [mapAll, mapAll, map_congr t h.1, mapAll_congr ts h.2]

end

mutual

theorem depth_le_of_mem_preorder {t u : SyntaxTree σ} (h : u ∈ t.preorder) : u.depth ≤ t.depth := by
  cases t with
  | sequence m ts | fallback m ts =>
    rcases List.mem_cons.mp h with rfl | h
    · exact Nat.le_refl _
    · exact (depth_le_of_mem_preorderAll h).trans (Nat.le_add_left ..)
  | action m call | condition m call =>
    obtain rfl := List.mem_singleton.mp h
    exact Nat.le_refl _
  | decorator m call t =>
    rcases List.mem_cons.mp h with rfl | h
    · exact Nat.le_refl _
    · exact (depth_le_of_mem_preorder h).trans (Nat.le_add_left ..)

theorem depth_le_of_mem_preorderAll {ts : List (SyntaxTree σ)} {u : SyntaxTree σ}
    (h : u ∈ preorderAll ts) : u.depth ≤ depthAll ts := by
  cases ts with
  | nil => cases h
  | cons t ts =>
    rcases List.mem_append.mp h with h | h
    · exact (depth_le_of_mem_preorder h).trans (Nat.le_max_left ..)
    · exact (depth_le_of_mem_preorderAll h).trans (Nat.le_max_right ..)

end

end SyntaxTree

namespace Grammar

theorem Opening.suffix {cs start : List Char} (h : Opening cs start) : start <:+ cs := by
  obtain ⟨paren, hparen, hstart⟩ := h
  exact hstart.suffix.trans ((List.suffix_cons '(' paren).trans hparen.suffix)

theorem Closing.suffix {cs rest : List Char} (h : Closing cs rest) : rest <:+ cs := by
  exact (List.suffix_cons ')' rest).trans (Gap.suffix h)

section

variable {σ : Type} {mark : Nat → σ}

def Lies (mark : Nat → σ) (u : SyntaxTree σ) (cs rest : List Char) : Prop :=
  ∃ start last, start <:+ cs ∧ NodeText mark u start last ∧ rest <:+ last

theorem NodeText.lies_self {t : SyntaxTree σ} {cs rest : List Char} (h : NodeText mark t cs rest) :
    Lies mark t cs rest :=
  ⟨cs, rest, List.suffix_rfl, h, List.suffix_rfl⟩

theorem Lies.of_suffix {u : SyntaxTree σ} {cs start mid rest : List Char}
    (h : Lies mark u start mid) (hstart : start <:+ cs) (hmid : rest <:+ mid) :
    Lies mark u cs rest := by
  obtain ⟨start', last, hstart', hnode, hlast⟩ := h
  exact ⟨start', last, hstart'.trans hstart, hnode, hmid.trans hlast⟩

mutual

theorem NodeText.lies {t : SyntaxTree σ} {cs rest : List Char} (h : NodeText mark t cs rest) :
    ∀ u ∈ t.preorder, Lies mark u cs rest := by
  have hself := h.lies_self
  cases h with
  | sequence hopen hnodes hclose | fallback hopen hnodes hclose =>
    refine List.forall_mem_cons.mpr ⟨hself, ?_⟩
    intro u hu
    exact (NodesText.lies hnodes u hu).of_suffix (hopen.suffix.trans (List.suffix_cons ..))
      hclose.suffix
  | action | condition => exact List.forall_mem_singleton.mpr hself
  | decorator hopen hcall hgap hnode hclose =>
    refine List.forall_mem_cons.mpr ⟨hself, ?_⟩
    intro u hu
    have hinner := hgap.suffix.trans (hcall.suffix.trans hopen.suffix)
    exact (NodeText.lies hnode u hu).of_suffix (hinner.trans (List.suffix_cons ..)) hclose.suffix

theorem NodesText.lies {ts : List (SyntaxTree σ)} {cs rest : List Char}
    (h : NodesText mark ts cs rest) : ∀ u ∈ SyntaxTree.preorderAll ts, Lies mark u cs rest := by
  cases h with
  | nil => exact List.forall_mem_nil _
  | cons hnode hsiblings =>
    refine List.forall_mem_append.mpr ⟨?_, ?_⟩
    · intro u hu
      exact (NodeText.lies hnode u hu).of_suffix List.suffix_rfl hsiblings.suffix
    · intro u hu
      exact (SiblingsText.lies hsiblings u hu).of_suffix hnode.suffix List.suffix_rfl

theorem SiblingsText.lies {ts : List (SyntaxTree σ)} {cs rest : List Char}
    (h : SiblingsText mark ts cs rest) : ∀ u ∈ SyntaxTree.preorderAll ts, Lies mark u cs rest := by
  cases h with
  | nil => exact List.forall_mem_nil _
  | cons hcolons hgap hnode hsiblings =>
    have hinner := hgap.suffix.trans
      ((List.suffix_append [':', ':'] _).trans hcolons.suffix)
    refine List.forall_mem_append.mpr ⟨?_, ?_⟩
    · intro u hu
      exact (NodeText.lies hnode u hu).of_suffix hinner hsiblings.suffix
    · intro u hu
      exact (SiblingsText.lies hsiblings u hu).of_suffix (hnode.suffix.trans hinner)
        List.suffix_rfl

end

theorem NodeText.head?_eq {t : SyntaxTree σ} {cs rest : List Char} (h : NodeText mark t cs rest) :
    cs.head? = some t.letter := by
  cases h <;> rfl

theorem NodeText.map {τ : Type} (f : σ → τ) {t : SyntaxTree σ} {cs rest : List Char}
    (h : NodeText mark t cs rest) : NodeText (f ∘ mark) (t.map f) cs rest := by
  obtain ⟨u, hu, rfl⟩ := Parser.complete_node _ t.depth h (Nat.le_refl _)
  rw [SyntaxTree.map_map]
  exact (Parser.sound_node (f ∘ mark) _ hu).1

theorem NodeText.exists_counted {t : SyntaxTree σ} {cs rest : List Char}
    (h : NodeText mark t cs rest) :
    ∃ u : SyntaxTree Nat, NodeText id u cs rest ∧ u.map mark = t := by
  obtain ⟨u, hu, rfl⟩ := Parser.complete_node _ t.depth h (Nat.le_refl _)
  refine ⟨u.map id, (Parser.sound_node id _ hu).1, ?_⟩
  apply SyntaxTree.map_map

end

theorem Lies.mark_mem {u : SyntaxTree Nat} {cs rest : List Char} (h : Lies id u cs rest) :
    rest.length < u.mark ∧ u.mark ≤ cs.length := by
  obtain ⟨start, last, hstart, hnode, hlast⟩ := h
  have hmark : u.mark = start.length := hnode.mark_eq
  have := hnode.length_lt
  have := hstart.length_le
  have := hlast.length_le
  omega

mutual

theorem NodeText.descending {t : SyntaxTree Nat} {cs rest : List Char} (h : NodeText id t cs rest) :
    t.preorder.Pairwise fun u w => w.mark < u.mark := by
  cases h with
  | @sequence _ tail _ _ _ hopen hnodes hclose | @fallback _ tail _ _ _ hopen hnodes hclose =>
    refine .cons ?_ (NodesText.descending hnodes)
    intro u hu
    have := (hnodes.lies u hu).mark_mem
    have := hopen.length_le
    change u.mark < tail.length + 1
    omega
  | action | condition => exact List.pairwise_singleton ..
  | @decorator _ _ tail _ _ _ _ _ hopen hcall hgap hnode hclose =>
    refine .cons ?_ (NodeText.descending hnode)
    intro u hu
    have := (hnode.lies u hu).mark_mem
    have := hgap.suffix.length_le
    have := hcall.length_le
    have := hopen.length_le
    change u.mark < tail.length + 1
    omega

theorem NodesText.descending {ts : List (SyntaxTree Nat)} {cs rest : List Char}
    (h : NodesText id ts cs rest) :
    (SyntaxTree.preorderAll ts).Pairwise fun u w => w.mark < u.mark := by
  cases h with
  | nil => exact .nil
  | cons hnode hsiblings =>
    refine List.pairwise_append.mpr
      ⟨NodeText.descending hnode, SiblingsText.descending hsiblings, ?_⟩
    intro u hu w hw
    have := (hnode.lies u hu).mark_mem
    have := (hsiblings.lies w hw).mark_mem
    omega

theorem SiblingsText.descending {ts : List (SyntaxTree Nat)} {cs rest : List Char}
    (h : SiblingsText id ts cs rest) :
    (SyntaxTree.preorderAll ts).Pairwise fun u w => w.mark < u.mark := by
  cases h with
  | nil => exact .nil
  | cons hcolons hgap hnode hsiblings =>
    refine List.pairwise_append.mpr
      ⟨NodeText.descending hnode, SiblingsText.descending hsiblings, ?_⟩
    intro u hu w hw
    have := (hnode.lies u hu).mark_mem
    have := (hsiblings.lies w hw).mark_mem
    omega

end

end Grammar

open Grammar

namespace Program

/--
A node stands in a text between the given parts of it. Its mark is the place of the letter that it
starts with, and what it takes up is a program of its own, in which places count from its start.
-/
structure Stands (text : String) (u : SyntaxTree Span) (before slice after : List Char)
    (v : SyntaxTree Span) : Prop where
  text_eq : text.toList = before ++ (slice ++ after)
  locates : u.mark.Locates before
  letter_eq : slice.head? = some u.letter
  parse_eq : parse (String.ofList slice) = .ok v
  mark_eq : v.mark = .start
  map_eq : v.map u.mark.within = u

theorem Stands.of_lies {text : String} {u : SyntaxTree Span} {rest : List Char}
    (h : Lies (Span.ofRemaining text.toList) u text.toList rest) (hdepth : u.depth ≤ maxDepth) :
    ∃ before slice after v, Stands text u before slice after v := by
  obtain ⟨start, after, ⟨before, htext⟩, hnode, -⟩ := h
  have hmark := hnode.mark_eq
  rw [← htext, Span.ofRemaining_length] at hmark
  have hletter := hnode.head?_eq
  have hlt := hnode.length_lt
  obtain ⟨slice, rfl, halone⟩ := hnode.exists_alone
  have hne : slice ≠ [] := by
    rintro rfl
    exact absurd hlt (Nat.lt_irrefl _)
  -- The nodes have the same numbers of characters up to the end of the slice, whatever follows it.
  obtain ⟨w, hw, hmap⟩ := halone.exists_counted
  have hslice := hw.map (Span.ofRemaining slice)
  refine ⟨before, slice, after, w.map (Span.ofRemaining slice), htext.symm, ?_, ?_, ?_, ?_, ?_⟩
  · rw [hmark]
    apply Span.locates_after
  · rwa [List.head?_append_of_ne_nil _ hne] at hletter
  · apply parse_of_programText
    · rw [String.toList_ofList]
      exact ⟨slice, [], .none _, hslice, .none _⟩
    · rw [← hmap, SyntaxTree.depth_map] at hdepth
      rwa [SyntaxTree.depth_map]
  · rw [hslice.mark_eq]
    exact Span.ofRemaining_length [] slice
  · rw [SyntaxTree.map_map, hmark]
    refine (SyntaxTree.map_congr w ?_).trans hmap
    intro x hx
    rw [← htext]
    exact Span.within_ofRemaining before slice after (hw.lies x hx).mark_mem.2

theorem lies_of_parse {text : String} {tree : SyntaxTree Span} (h : parse text = .ok tree) :
    ∃ rest, ∀ u ∈ tree.preorder, Lies (Span.ofRemaining text.toList) u text.toList rest := by
  obtain ⟨⟨start, rest, hgap, hnode, -⟩, -⟩ := programText_of_parse h
  refine ⟨rest, fun u hu => ?_⟩
  exact (hnode.lies u hu).of_suffix hgap.suffix List.suffix_rfl

theorem exists_stands_of_parse {text : String} {tree : SyntaxTree Span}
    (h : parse text = .ok tree) :
    ∀ u ∈ tree.preorder, ∃ before slice after v, Stands text u before slice after v := by
  obtain ⟨rest, hlies⟩ := lies_of_parse h
  intro u hu
  apply Stands.of_lies (hlies u hu)
  exact (SyntaxTree.depth_le_of_mem_preorder hu).trans (programText_of_parse h).2

theorem offset_lt_of_parse {text : String} {tree : SyntaxTree Span} (h : parse text = .ok tree) :
    tree.preorder.Pairwise fun u w => u.mark.offset < w.mark.offset := by
  obtain ⟨⟨start, rest, hgap, hnode, -⟩, -⟩ := programText_of_parse h
  obtain ⟨t, ht, rfl⟩ := hnode.exists_counted
  rw [SyntaxTree.preorder_map, List.pairwise_map]
  apply ht.descending.imp_of_mem
  intro u w hu _ hlt
  rw [SyntaxTree.mark_map, SyntaxTree.mark_map]
  apply Span.offset_ofRemaining_lt hlt
  exact (ht.lies u hu).mark_mem.2.trans hgap.suffix.length_le

end Program

end BattleTree
