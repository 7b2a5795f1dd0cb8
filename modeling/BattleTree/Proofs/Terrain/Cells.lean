import BattleTree.Proofs.Terrain.Raster
import Mathlib.Data.List.Basic

/-!
This module contains that a map says for every cell whether it is obstructed: what a cell was last
set to, or else what it was when the map was made. Cells outside are obstructed and stay so. Rows
whose lengths fit into 32 bits have to have the shape of the map. The cells of longer ones come
round to the same places, where the last one that is written counts.
-/

namespace BattleTree

namespace Terrain

def OnMap (width height : Nat) (c : Cell) : Prop :=
  0 ≤ c.x ∧ c.x < width ∧ 0 ≤ c.y ∧ c.y < height

def setAll (t : Terrain) (settings : List (Cell × Bool)) : Except Fault Terrain :=
  settings.foldlM (fun t (c, blocked) => t.setBlocked c blocked) t

def overlay (flag : Cell → Bool) (settings : List (Cell × Bool)) (c : Cell) : Bool :=
  (settings.reverse.lookup c).getD (flag c)

/--
A map of the given size whose cells have the given flags. Its raster has a place for every cell on
it, where the flag is read and written, and nothing happens to cells outside.
-/
structure Shows (t : Terrain) (width height : Nat) (flag : Cell → Bool) : Prop where
  width_eq : t.width = width
  height_eq : t.height = height
  size_blocked : t.blocked.size = width * height
  inside : ∀ c, OnMap width height c → t.isBlocked c = .ok (flag c) ∧
    ∃ i, ∃ hi : i < t.blocked.size, t.index? c = some i ∧ t.blocked[i] = flag c ∧
      ∀ blocked, ∃ t', t.setBlocked c blocked = .ok t' ∧ t'.width = width ∧ t'.height = height ∧
        t'.blocked = t.blocked.set i blocked hi
  outside : ∀ c, ¬OnMap width height c →
    t.isBlocked c = .ok true ∧ ∀ blocked, t.setBlocked c blocked = .ok t

section

variable {t : Terrain} {c c' : Cell}

theorem onMap_of_index? {i : Nat} (h : t.index? c = some i) : OnMap t.width t.height c := by
  unfold index? at h
  split at h
  · next hcovers =>
    rw [Bool.and_eq_true] at hcovers
    obtain ⟨hx, hxlt⟩ := covers_eq_true hcovers.1
    obtain ⟨hy, hylt⟩ := covers_eq_true hcovers.2
    exact ⟨hx, hxlt, hy, hylt⟩
  · cases h

theorem index?_eq_none (h : ¬OnMap t.width t.height c) : t.index? c = none := by
  rw [Option.eq_none_iff_forall_ne_some]
  intro i hi
  exact h (onMap_of_index? hi)

theorem isBlocked_of_not_onMap (h : ¬OnMap t.width t.height c) : t.isBlocked c = .ok true :=
  isBlocked_of_index?_eq_none (index?_eq_none h)

theorem index?_congr {t' : Terrain} (hwidth : t'.width = t.width) (hheight : t'.height = t.height)
    (c : Cell) : t'.index? c = t.index? c := by
  unfold index?
  rw [hwidth, hheight]

theorem place_div_mod {width x : Nat} (h : x < width) (y : Nat) :
    (y * width + x) / width = y ∧ (y * width + x) % width = x := by
  rw [Nat.mul_comm y, Nat.mul_add_div (Nat.zero_lt_of_lt h), Nat.mul_add_mod,
    Nat.div_eq_of_lt h, Nat.mod_eq_of_lt h]
  exact ⟨Nat.add_zero y, rfl⟩

theorem coordinates_of_index? {i : Nat} (h : t.index? c = some i) :
    c.x.toNat = i % t.width ∧ c.y.toNat = i / t.width := by
  obtain ⟨hx, hxlt, -, -⟩ := onMap_of_index? h
  unfold index? at h
  split at h
  · obtain rfl := Option.some.inj h
    obtain ⟨hdiv, hmod⟩ := @place_div_mod t.width c.x.toNat (by omega) c.y.toNat
    exact ⟨hmod.symm, hdiv.symm⟩
  · cases h

theorem eq_of_index? {i : Nat} (h : t.index? c = some i) (h' : t.index? c' = some i) : c = c' := by
  obtain ⟨hx, -, hy, -⟩ := onMap_of_index? h
  obtain ⟨hx', -, hy', -⟩ := onMap_of_index? h'
  obtain ⟨hmod, hdiv⟩ := coordinates_of_index? h
  obtain ⟨hmod', hdiv'⟩ := coordinates_of_index? h'
  rw [Cell.mk.injEq]
  omega

theorem exists_index? (hwidth : t.width < Nat.pow 2 31) (hheight : t.height < Nat.pow 2 31)
    (hc : OnMap t.width t.height c) : ∃ i, t.index? c = some i := by
  obtain ⟨hx, hxlt, hy, hylt⟩ := hc
  unfold index?
  rw [covers_of_lt hwidth hx hxlt, covers_of_lt hheight hy hylt, Bool.and_self, if_pos rfl]
  exact ⟨_, rfl⟩

def Flags (t : Terrain) (flag : Cell → Bool) : Prop :=
  ∀ c i, t.index? c = some i → t.blocked[i]? = some (flag c)

theorem Flags.isBlocked_eq {flag : Cell → Bool} (h : t.Flags flag) {i : Nat}
    (hi : t.index? c = some i) : t.isBlocked c = .ok (flag c) := by
  unfold isBlocked
  rw [hi]
  dsimp only
  rw [h c i hi]

theorem Flags.setBlocked {flag : Cell → Bool} (h : t.Flags flag) (c : Cell) (blocked : Bool) :
    ∃ t', t.setBlocked c blocked = .ok t' ∧ t'.width = t.width ∧ t'.height = t.height ∧
      t'.Flags fun c' => if c = c' then blocked else flag c' := by
  cases hc : t.index? c with
  | some j =>
    obtain ⟨t', hset, hwidth, hheight, hcells⟩ := setBlocked_of_index? hc blocked
    refine ⟨t', hset, hwidth, hheight, ?_⟩
    intro c' i hi
    rw [index?_congr hwidth hheight] at hi
    dsimp only
    rw [hcells, Array.getElem?_setIfInBounds]
    by_cases hplace : j = i
    · obtain rfl := hplace
      obtain rfl := eq_of_index? hc hi
      rw [if_pos rfl, if_pos (index?_lt hc), if_pos rfl]
    · have hne : c ≠ c' := by
        rintro rfl
        exact hplace (Option.some.inj (hc.symm.trans hi))
      rw [if_neg hplace, if_neg hne, h c' i hi]
  | none =>
    refine ⟨t, setBlocked_of_index?_eq_none hc blocked, rfl, rfl, ?_⟩
    intro c' i hi
    have hne : c ≠ c' := by
      rintro rfl
      rw [hc] at hi
      cases hi
    dsimp only
    rw [if_neg hne, h c' i hi]

theorem Flags.shows {flag : Cell → Bool} (h : t.Flags flag) (hwidth : t.width < Nat.pow 2 31)
    (hheight : t.height < Nat.pow 2 31) : t.Shows t.width t.height flag := by
  refine ⟨rfl, rfl, t.size_eq, ?_, ?_⟩
  · intro c hc
    obtain ⟨i, hi⟩ := exists_index? hwidth hheight hc
    obtain ⟨hlt, hget⟩ := Array.getElem?_eq_some_iff.mp (h c i hi)
    refine ⟨h.isBlocked_eq hi, i, hlt, hi, hget, ?_⟩
    intro blocked
    obtain ⟨t', hset, hwidth', hheight', hcells⟩ := setBlocked_of_index? hi blocked
    refine ⟨t', hset, hwidth', hheight', ?_⟩
    rw [hcells, Array.setIfInBounds, dif_pos hlt]
  · intro c hc
    have hi := index?_eq_none hc
    exact ⟨isBlocked_of_index?_eq_none hi, setBlocked_of_index?_eq_none hi⟩

end

section

variable {t : Terrain} (settings : List (Cell × Bool))

theorem setAll_append (t : Terrain) (before after : List (Cell × Bool)) :
    t.setAll (before ++ after) = t.setAll before >>= fun t' => t'.setAll after := by
  exact List.foldlM_append

theorem overlay_cons (flag : Cell → Bool) (c : Cell) (blocked : Bool) :
    overlay flag ((c, blocked) :: settings) =
      overlay (fun c' => if c = c' then blocked else flag c') settings := by
  funext c'
  unfold overlay
  rw [List.reverse_cons, List.lookup_append, List.lookup_cons, List.lookup_nil]
  cases settings.reverse.lookup c' with
  | some flag' => rfl
  | none =>
    by_cases h : c = c'
    · simp [h]
    · simp [h, beq_false_of_ne (Ne.symm h)]

theorem Flags.setAll {flag : Cell → Bool} (h : t.Flags flag) :
    ∃ t', t.setAll settings = .ok t' ∧ t'.width = t.width ∧ t'.height = t.height ∧
      t'.Flags (overlay flag settings) := by
  induction settings generalizing t flag with
  | nil => exact ⟨t, rfl, rfl, rfl, h⟩
  | cons setting settings ih =>
    obtain ⟨c, blocked⟩ := setting
    obtain ⟨t₁, hset, hwidth, hheight, hflags⟩ := h.setBlocked c blocked
    obtain ⟨t₂, hrest, hwidth', hheight', hflags'⟩ := ih hflags
    refine ⟨t₂, ?_, hwidth'.trans hwidth, hheight'.trans hheight, ?_⟩
    · unfold Terrain.setAll
      rw [List.foldlM_cons]
      dsimp only
      rw [hset, ok_bind]
      exact hrest
    · rw [overlay_cons]
      exact hflags'

theorem exists_flags (t : Terrain) : ∃ flag, t.Flags flag := by
  refine ⟨fun c => ((t.index? c).bind fun i => t.blocked[i]?).getD false, ?_⟩
  intro c i hi
  dsimp only
  rw [hi, Option.bind_some, Array.getElem?_eq_getElem (index?_lt hi), Option.getD_some]

theorem exists_setAll (t : Terrain) :
    ∃ t', t.setAll settings = .ok t' ∧ t'.width = t.width ∧ t'.height = t.height := by
  obtain ⟨flag, hflag⟩ := t.exists_flags
  obtain ⟨t', hset, hwidth, hheight, -⟩ := hflag.setAll settings
  exact ⟨t', hset, hwidth, hheight⟩

theorem overlay_append (flag : Cell → Bool) (before after : List (Cell × Bool)) :
    overlay flag (before ++ after) = overlay (overlay flag before) after := by
  funext c
  unfold overlay
  rw [List.reverse_append, List.lookup_append]
  cases after.reverse.lookup c <;> rfl

theorem overlay_of_mem {c : Cell} {blocked : Bool} (h : (c, blocked) ∈ settings)
    (hunique : ∀ blocked', (c, blocked') ∈ settings → blocked' = blocked) (flag : Cell → Bool) :
    overlay flag settings c = blocked := by
  unfold overlay
  cases hlookup : settings.reverse.lookup c with
  | some blocked' =>
    obtain ⟨after, before, hsplit, -⟩ := List.lookup_eq_some_iff.mp hlookup
    apply hunique
    rw [← List.mem_reverse, hsplit]
    simp
  | none =>
    have hmem := List.lookup_eq_none_iff.mp hlookup _ (List.mem_reverse.mpr h)
    simp at hmem

end

structure Rectangular (rows : List (List UInt8)) (width height : Nat) : Prop where
  length_eq : rows.length = height
  row_length : ∀ row ∈ rows, row.length = width

def rowFlag (rows : List (List UInt8)) (c : Cell) : Bool :=
  (rows[c.y.toNat]?.bind fun row => row[c.x.toNat]?).any (· ≠ 0)

def rowSettings (y : Nat) (row : List UInt8) : List (Cell × Bool) :=
  row.zipIdx.map fun (cell, x) => (.ofPlace x y, cell ≠ 0)

def rowsSettings (y : Nat) (rows : List (List UInt8)) : List (Cell × Bool) :=
  (rows.zipIdx y).flatMap fun (row, y) => rowSettings y row

section

variable {t t' : Terrain} {rows : List (List UInt8)}

theorem ofPlace_of_lt {x y : Nat} (hx : x < Nat.pow 2 31) (hy : y < Nat.pow 2 31) :
    Cell.ofPlace x y = ⟨x, y⟩ := by
  unfold Cell.ofPlace
  rw [Int32.toInt_ofNat_of_lt hx, Int32.toInt_ofNat_of_lt hy]

theorem setRow_eq_setAll (t : Terrain) (y : Nat) (row : List UInt8) :
    t.setRow y row = t.setAll (rowSettings y row) := by
  unfold setRow setAll rowSettings
  rw [List.foldlM_map]

theorem setRows_eq_ok_iff {y : Nat} :
    t.setRows y rows = .ok t' ↔
      (∀ row ∈ rows, (UInt32.ofNat row.length).toNat = t.width) ∧
        t.setAll (rowsSettings y rows) = .ok t' := by
  induction rows generalizing t y with
  | nil => simp [setRows, rowsSettings, setAll, pure, Except.pure]
  | cons row rows ih =>
    obtain ⟨t₁, hrow, hwidth, -⟩ := t.exists_setAll (rowSettings y row)
    rw [setRows, List.forall_mem_cons, rowsSettings, List.zipIdx_cons, List.flatMap_cons,
      setAll_append, setRow_eq_setAll, hrow, ok_bind, ok_bind]
    split
    · next hlength =>
      rw [and_iff_right hlength, ← hwidth]
      exact ih
    · next hlength =>
      simp only [hlength, false_and, iff_false]
      intro h
      obtain ⟨_, h, -⟩ := bind_eq_ok_iff.mp h
      cases h

theorem mem_rowsSettings {c : Cell} {blocked : Bool} :
    (c, blocked) ∈ rowsSettings 0 rows ↔ ∃ y row x cell, rows[y]? = some row ∧
      row[x]? = some cell ∧ c = .ofPlace x y ∧ blocked = decide (cell ≠ 0) := by
  simp only [rowsSettings, rowSettings, List.mem_flatMap, List.mem_map, Prod.exists,
    List.mk_mem_zipIdx_iff_getElem?, Prod.mk.injEq]
  constructor
  · rintro ⟨row, y, hrow, cell, x, hcell, rfl, rfl⟩
    exact ⟨y, row, x, cell, hrow, hcell, rfl, rfl⟩
  · rintro ⟨y, row, x, cell, hrow, hcell, rfl, rfl⟩
    exact ⟨row, y, hrow, cell, x, hcell, rfl, rfl⟩

section

variable {width height : Nat} (h : Rectangular rows width height)

include h

theorem Rectangular.ofPlace_eq (hwidth : width < Nat.pow 2 31) (hheight : height < Nat.pow 2 31)
    {x y : Nat} {row : List UInt8} {cell : UInt8} (hrow : rows[y]? = some row)
    (hcell : row[x]? = some cell) : Cell.ofPlace x y = ⟨x, y⟩ := by
  have hlength := h.length_eq
  have hrowLength := h.row_length row (List.mem_of_getElem? hrow)
  obtain ⟨hy, -⟩ := List.getElem?_eq_some_iff.mp hrow
  obtain ⟨hx, -⟩ := List.getElem?_eq_some_iff.mp hcell
  exact ofPlace_of_lt (by omega) (by omega)

theorem Rectangular.overlay_rowsSettings (hwidth : width < Nat.pow 2 31)
    (hheight : height < Nat.pow 2 31) {c : Cell} (hc : OnMap width height c) (flag : Cell → Bool) :
    overlay flag (rowsSettings 0 rows) c = rowFlag rows c := by
  obtain ⟨hx, hxlt, hy, hylt⟩ := hc
  obtain ⟨row, hrow⟩ : ∃ row, rows[c.y.toNat]? = some row := by
    have := h.length_eq
    exact ⟨_, List.getElem?_eq_getElem (by omega)⟩
  obtain ⟨cell, hcell⟩ : ∃ cell, row[c.x.toNat]? = some cell := by
    have := h.row_length row (List.mem_of_getElem? hrow)
    exact ⟨_, List.getElem?_eq_getElem (by omega)⟩
  have hflag : rowFlag rows c = decide (cell ≠ 0) := by
    unfold rowFlag
    rw [hrow, Option.bind_some, hcell, Option.any_some]
  rw [hflag]
  apply overlay_of_mem
  · refine mem_rowsSettings.mpr ⟨_, row, _, cell, hrow, hcell, ?_, rfl⟩
    rw [h.ofPlace_eq hwidth hheight hrow hcell, Int.toNat_of_nonneg hx, Int.toNat_of_nonneg hy]
  · intro blocked' hmem
    obtain ⟨y, row', x, cell', hrow', hcell', rfl, rfl⟩ := mem_rowsSettings.mp hmem
    rw [h.ofPlace_eq hwidth hheight hrow' hcell'] at hrow hcell
    obtain rfl := Option.some.inj (hrow.symm.trans hrow')
    obtain rfl := Option.some.inj (hcell.symm.trans hcell')
    rfl

end

end

section

variable {t : Terrain} {width height : Nat} {rows : List (List UInt8)}

theorem ofSize_eq_ok (h : ofSize width height = .ok t) :
    t.width = width ∧ t.height = height ∧ t.Flags fun _ => false := by
  unfold ofSize at h
  dsimp only at h
  split at h
  · obtain ⟨_, -, h⟩ := bind_eq_ok_iff.mp h
    obtain rfl := Except.ok.inj h
    refine ⟨rfl, rfl, ?_⟩
    intro c i hi
    have hlt := index?_lt hi
    rw [Array.size_replicate] at hlt
    rw [Array.getElem?_replicate, if_pos hlt]
  · cases h

theorem exists_ofSize (hwidth : 0 < width ∧ width < Nat.pow 2 31)
    (hheight : 0 < height ∧ height < Nat.pow 2 31) : ∃ t, ofSize width height = .ok t := by
  have hcells : width * height < Nat.pow 2 63 :=
    calc width * height < Nat.pow 2 31 * Nat.pow 2 31 := Nat.mul_lt_mul'' hwidth.2 hheight.2
      _ < Nat.pow 2 63 := by decide
  unfold ofSize requireAddressable
  rw [if_pos hcells, if_pos ⟨hwidth.1, hheight.1⟩]
  exact ⟨_, rfl⟩

theorem ofRows_eq_ok_iff :
    ofRows rows = .ok t ↔ ∃ t₀,
      ofSize (UInt32.ofNat (rows.head?.elim 0 List.length)).toNat
        (UInt32.ofNat rows.length).toNat = .ok t₀ ∧
      (∀ row ∈ rows, (UInt32.ofNat row.length).toNat = t₀.width) ∧
        t₀.setAll (rowsSettings 0 rows) = .ok t := by
  unfold ofRows
  dsimp only
  rw [bind_eq_ok_iff]
  simp only [setRows_eq_ok_iff]

theorem ofRows_eq_ok (h : ofRows rows = .ok t) :
    t.height = (UInt32.ofNat rows.length).toNat ∧
      (∀ row ∈ rows, (UInt32.ofNat row.length).toNat = t.width) ∧
      t.Flags (overlay (fun _ => false) (rowsSettings 0 rows)) := by
  obtain ⟨t₀, ht₀, hlengths, hset⟩ := ofRows_eq_ok_iff.mp h
  obtain ⟨-, hheight₀, hflags⟩ := ofSize_eq_ok ht₀
  obtain ⟨t', hset', hwidth, hheight, hflags'⟩ := hflags.setAll (rowsSettings 0 rows)
  obtain rfl := Except.ok.inj (hset.symm.trans hset')
  rw [hwidth, hheight]
  exact ⟨hheight₀, hlengths, hflags'⟩

theorem toNat_ofNat_length {n bound : Nat} (h : n < bound) (hbound : bound ≤ Nat.pow 2 32) :
    (UInt32.ofNat n).toNat = n :=
  UInt32.toNat_ofNat_of_lt (Nat.lt_of_lt_of_le h hbound)

theorem Rectangular.exists_ofRows (h : Rectangular rows width height)
    (hwidth : 0 < width ∧ width < Nat.pow 2 31) (hheight : 0 < height ∧ height < Nat.pow 2 31) :
    ∃ t, ofRows rows = .ok t ∧ t.width = width ∧ t.height = height := by
  obtain ⟨t₀, ht₀⟩ := exists_ofSize hwidth hheight
  obtain ⟨hwidth₀, hheight₀, -⟩ := ofSize_eq_ok ht₀
  obtain ⟨t, hset, hwidth', hheight'⟩ := t₀.exists_setAll (rowsSettings 0 rows)
  have hhead : rows.head?.elim 0 List.length = width := by
    cases rows with
    | nil =>
      have := h.length_eq
      rw [List.length_nil] at this
      omega
    | cons row rows => exact h.row_length row List.mem_cons_self
  refine ⟨t, ?_, hwidth'.trans hwidth₀, hheight'.trans hheight₀⟩
  rw [ofRows_eq_ok_iff, hhead, h.length_eq, toNat_ofNat_length hwidth.2 (by decide),
    toNat_ofNat_length hheight.2 (by decide)]
  refine ⟨t₀, ht₀, ?_, hset⟩
  intro row hrow
  rw [h.row_length row hrow, toNat_ofNat_length hwidth.2 (by decide), hwidth₀]

theorem rectangular_of_ofRows (h : ofRows rows = .ok t) (hrows : rows.length < Nat.pow 2 32)
    (hlengths : ∀ row ∈ rows, row.length < Nat.pow 2 32) :
    Rectangular rows t.width t.height := by
  obtain ⟨hheight, hwidth, -⟩ := ofRows_eq_ok h
  refine ⟨?_, ?_⟩
  · rw [hheight, toNat_ofNat_length hrows (Nat.le_refl _)]
  · intro row hrow
    rw [← hwidth row hrow, toNat_ofNat_length (hlengths row hrow) (Nat.le_refl _)]

theorem Flags.shows_setAll {flag : Cell → Bool} (h : t.Flags flag)
    (hwidth : t.width < Nat.pow 2 31) (hheight : t.height < Nat.pow 2 31)
    (settings : List (Cell × Bool)) :
    ∃ t', t.setAll settings = .ok t' ∧ t'.Shows t.width t.height (overlay flag settings) := by
  obtain ⟨t', hset, hwidth', hheight', hflags⟩ := h.setAll settings
  have hshows := hflags.shows
  rw [hwidth', hheight'] at hshows
  exact ⟨t', hset, hshows hwidth hheight⟩

theorem Rectangular.flags_of_ofRows (hrows : Rectangular rows t.width t.height)
    (h : ofRows rows = .ok t) (hwidth : t.width < Nat.pow 2 31)
    (hheight : t.height < Nat.pow 2 31) : t.Flags (rowFlag rows) := by
  obtain ⟨-, -, hflags⟩ := ofRows_eq_ok h
  intro c i hi
  rw [hflags c i hi, hrows.overlay_rowsSettings hwidth hheight (onMap_of_index? hi)]

theorem exists_shows_setAll (hwidth : 0 < width ∧ width < Nat.pow 2 31)
    (hheight : 0 < height ∧ height < Nat.pow 2 31) :
    (∃ t, ofSize width height = .ok t ∧ ∀ settings, ∃ t', t.setAll settings = .ok t' ∧
      t'.Shows width height (overlay (fun _ => false) settings)) ∧
    (∀ rows, Rectangular rows width height → ∃ t, ofRows rows = .ok t ∧
      ∀ settings, ∃ t', t.setAll settings = .ok t' ∧
        t'.Shows width height (overlay (rowFlag rows) settings)) ∧
    ∀ rows t, ofRows rows = .ok t → t.width = width → t.height = height →
      (rows.length < Nat.pow 2 32 → (∀ row ∈ rows, row.length < Nat.pow 2 32) →
        Rectangular rows width height) ∧
      ∀ settings, ∃ t', t.setAll settings = .ok t' ∧
        t'.Shows width height (overlay (fun _ => false) (rowsSettings 0 rows ++ settings)) := by
  refine ⟨?_, ?_, ?_⟩
  · obtain ⟨t, ht⟩ := exists_ofSize hwidth hheight
    obtain ⟨rfl, rfl, hflags⟩ := ofSize_eq_ok ht
    exact ⟨t, ht, hflags.shows_setAll hwidth.2 hheight.2⟩
  · intro rows hrows
    obtain ⟨t, ht, rfl, rfl⟩ := hrows.exists_ofRows hwidth hheight
    have hflags := hrows.flags_of_ofRows ht hwidth.2 hheight.2
    exact ⟨t, ht, hflags.shows_setAll hwidth.2 hheight.2⟩
  · rintro rows t h rfl rfl
    obtain ⟨-, -, hflags⟩ := ofRows_eq_ok h
    refine ⟨rectangular_of_ofRows h, ?_⟩
    intro settings
    rw [overlay_append]
    exact hflags.shows_setAll hwidth.2 hheight.2 settings

theorem exists_shows_setAll_wide :
    let rows : List (List UInt8) := [[0, 0, 1], [1, 0, 0]]
    let settings : List (Cell × Bool) :=
      [(⟨1, 1⟩, true), (⟨2, 0⟩, false), (⟨-1, 1⟩, false), (⟨2, 0⟩, true), (⟨1, 1⟩, false)]
    (0 < 3 ∧ 3 < Nat.pow 2 31) ∧ (0 < 2 ∧ 2 < Nat.pow 2 31) ∧ Rectangular rows 3 2 ∧
      ∃ t t', ofRows rows = .ok t ∧ t.setAll settings = .ok t' ∧
        t'.Shows 3 2 (overlay (rowFlag rows) settings) ∧ t'.isBlocked ⟨2, 0⟩ = .ok true ∧
        t'.isBlocked ⟨1, 1⟩ = .ok false ∧ t'.isBlocked ⟨-1, 1⟩ = .ok true := by
  -- The cell to the north-west of the map is another one than the cell that ends the row below.
  intro rows settings
  have hrows : Rectangular rows 3 2 := ⟨rfl, by decide⟩
  obtain ⟨-, hmaps, -⟩ := @exists_shows_setAll 3 2 (by decide) (by decide)
  obtain ⟨t, ht, hsettings⟩ := hmaps rows hrows
  obtain ⟨t', ht', hshows⟩ := hsettings settings
  have hinside (c : Cell) (hc : OnMap 3 2 c) := (hshows.inside c hc).1
  refine ⟨by decide, by decide, hrows, t, t', ht, ht', hshows, ?_, ?_, ?_⟩
  · exact hinside ⟨2, 0⟩ (by unfold OnMap; decide)
  · exact hinside ⟨1, 1⟩ (by unfold OnMap; decide)
  · exact (hshows.outside ⟨-1, 1⟩ (by unfold OnMap; decide)).1

end

end Terrain

end BattleTree
