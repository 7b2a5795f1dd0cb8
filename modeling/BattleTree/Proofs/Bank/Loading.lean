import BattleTree.Bank.Load
import BattleTree.Proofs.Bank.Programs
import BattleTree.Yaml.Entries
import Mathlib.Data.List.Nodup

/-!
This module contains what bank is loaded: it depends on the programs that are found, but neither on
the order in which they are listed nor on the form that they are found in. The reader of mappings
can be any that gives all entries of the texts in question.
-/

namespace BattleTree

abbrev ProgramStore := String → Option ByteArray

namespace ProgramStore

variable {store : ProgramStore}

def Readable (store : ProgramStore) : Prop :=
  ∀ name octets, store name = some octets → ∃ text, String.fromUTF8? octets = some text

def Mem (store : ProgramStore) (name text : String) : Prop :=
  ∃ octets, store name = some octets ∧ String.fromUTF8? octets = some text

theorem Mem.text_eq {name text text' : String} (h : store.Mem name text)
    (h' : store.Mem name text') : text = text' := by
  obtain ⟨octets, hstore, htext⟩ := h
  obtain ⟨octets', hstore', htext'⟩ := h'
  rw [hstore] at hstore'
  obtain rfl := Option.some.inj hstore'
  exact Option.some.inj (htext.symm.trans htext')

def Has (store : ProgramStore) (trees : List (String × ByteArray)) : Prop :=
  ∀ name octets, store name = some octets ↔ (name, octets) ∈ trees

theorem exists_has {trees : List (String × ByteArray)} (h : (trees.map Prod.fst).Nodup) :
    ∃ store : ProgramStore, store.Has trees := by
  classical
  have hinj := List.inj_on_of_nodup_map h
  refine ⟨fun name => if h : ∃ octets, (name, octets) ∈ trees then some h.choose else none, ?_⟩
  intro name octets
  dsimp only
  split
  · next hmem =>
    constructor
    · rintro ⟨⟩
      exact hmem.choose_spec
    · intro hoctets
      have heq := hinj hmem.choose_spec hoctets rfl
      rw [(Prod.mk.inj heq).2]
  · next hmem =>
    constructor
    · rintro ⟨⟩
    · intro hoctets
      exact absurd ⟨octets, hoctets⟩ hmem

structure Lists (store : ProgramStore) (programs : Programs) : Prop where
  sorted : programs.Sorted
  mem_iff : ∀ name text, (name, text) ∈ programs ↔ store.Mem name text

theorem Lists.unique {programs others : Programs} (h : store.Lists programs)
    (hothers : store.Lists others) : programs = others := by
  apply h.sorted.eq_of_mem_iff hothers.sorted
  intro p
  rw [h.mem_iff, hothers.mem_iff]

theorem lists_ofList {found : List (String × String)}
    (h : ∀ name text, (name, text) ∈ found ↔ store.Mem name text) :
    store.Lists (.ofList found) := by
  have hconsistent : Programs.Consistent found := by
    rintro ⟨name, text⟩ hp ⟨_, text'⟩ hq rfl
    rw [((h name text).mp hp).text_eq ((h name text').mp hq)]
  constructor
  · exact Programs.sorted_ofList found
  · intro name text
    rw [Programs.mem_ofList_iff hconsistent, h]

end ProgramStore

inductive Broken (octets : ByteArray) : Prop where
  | unreadable : String.fromUTF8? octets = none → Broken octets
  | unbuilt {text : String} {e : BuildError} :
      String.fromUTF8? octets = some text → Program.Gives text (.error e) → Broken octets

theorem not_broken_iff {octets : ByteArray} :
    ¬Broken octets ↔
      ∃ text g, String.fromUTF8? octets = some text ∧ Program.Gives text (.ok g) := by
  constructor
  · intro h
    obtain ⟨text, htext⟩ := Option.ne_none_iff_exists'.mp fun hnone => h (.unreadable hnone)
    have hgives := Program.gives_compile text
    cases hg : Program.compile text with
    | error e => exact absurd (.unbuilt htext (hg ▸ hgives)) h
    | ok g => exact ⟨text, g, htext, hg ▸ hgives⟩
  · rintro ⟨text, g, htext, hg⟩ (h | ⟨h, he⟩)
    · rw [htext] at h
      cases h
    · obtain rfl := Option.some.inj (htext.symm.trans h)
      rw [← Program.compile_eq_iff] at hg he
      rw [hg] at he
      cases he

theorem treeName?_eq_some_iff {file name : String} :
    treeName? file = some name ↔ name ≠ "" ∧ file = name ++ ".bt" := by
  have hfile : file = name ++ ".bt" ↔
      file.toList.reverse = 't' :: 'b' :: '.' :: name.toList.reverse := by
    rw [← String.toList_inj, String.toList_append, List.reverse_eq_iff]
    simp
  rw [hfile]
  unfold treeName?
  split
  · next cs hcs =>
    rw [hcs]
    simp only [List.cons.injEq, true_and]
    split
    · next hempty =>
      obtain rfl := List.isEmpty_iff.mp hempty
      constructor
      · intro h
        cases h
      · rintro ⟨hname, h⟩
        exact absurd (String.toList_inj.mp (List.reverse_eq_nil_iff.mp h.symm)) hname
    · next hempty =>
      rw [Option.some.injEq, ← String.toList_inj, String.toList_ofList, List.reverse_eq_iff]
      constructor
      · rintro rfl
        refine ⟨?_, rfl⟩
        rintro rfl
        exact hempty rfl
      · rintro ⟨-, h⟩
        exact h
  · next hcs =>
    constructor
    · intro h
      cases h
    · rintro ⟨-, h⟩
      exact absurd h (hcs _)

theorem fromUTF8?_toUTF8 (text : String) : String.fromUTF8? text.toUTF8 = some text := by
  exact dif_pos text.isValidUTF8

def DirectoryEntry.tree? (entry : DirectoryEntry) : Option (String × ByteArray) :=
  match entry with
  | .file name octets => (treeName? name).map fun name => (name, octets)
  | .unnamed _ _ | .directory _ => none

def DirectoryEntry.fileName? (entry : DirectoryEntry) : Option String :=
  match entry with
  | .file name _ => some name
  | .unnamed _ _ | .directory _ => none

theorem DirectoryEntry.tree?_eq_some_iff {entry : DirectoryEntry} {name : String}
    {octets : ByteArray} :
    entry.tree? = some (name, octets) ↔ name ≠ "" ∧ entry = .file (name ++ ".bt") octets := by
  cases entry with
  | file fileName content =>
    simp only [tree?, Option.map_eq_some_iff, treeName?_eq_some_iff, Prod.mk.injEq, file.injEq]
    constructor
    · rintro ⟨_, hfile, rfl, rfl⟩
      exact ⟨hfile.1, hfile.2, rfl⟩
    · rintro ⟨hname, hfile, hcontent⟩
      exact ⟨name, ⟨hname, hfile⟩, rfl, hcontent⟩
  | unnamed => simp [tree?]
  | directory => simp [tree?]

namespace Programs

theorem programIn_of_tree?_eq_none {entry : DirectoryEntry} (path : String)
    (h : entry.tree? = none) : programIn path entry = .ok none := by
  cases entry with
  | file name octets =>
    rw [DirectoryEntry.tree?, Option.map_eq_none_iff] at h
    rw [programIn, h]
  | unnamed => rfl
  | directory => rfl

theorem programIn_of_tree? {entry : DirectoryEntry} {name : String} {octets : ByteArray}
    (path : String) (h : entry.tree? = some (name, octets)) :
    programIn path entry =
      match String.fromUTF8? octets with
      | some text => .ok (some (name, text))
      | none => .error (.unreadableTree (Path.join path (name ++ ".bt"))) := by
  obtain ⟨hname, rfl⟩ := DirectoryEntry.tree?_eq_some_iff.mp h
  have hfile : treeName? (name ++ ".bt") = some name := treeName?_eq_some_iff.mpr ⟨hname, rfl⟩
  cases htext : String.fromUTF8? octets with
  | none => simp only [programIn, hfile, htext]
  | some text => simp only [programIn, hfile, htext]

def Decodes (tree : String × ByteArray) (p : String × String) : Prop :=
  tree.1 = p.1 ∧ String.fromUTF8? tree.2 = some p.2

theorem programIn_eq_ok_iff {path : String} {entry : DirectoryEntry}
    {p : Option (String × String)} :
    programIn path entry = .ok p ↔ Option.Rel Decodes entry.tree? p := by
  cases htree : entry.tree? with
  | none =>
    rw [programIn_of_tree?_eq_none path htree]
    constructor
    · rintro ⟨⟩
      exact .none
    · rintro ⟨⟩
      rfl
  | some tree =>
    rw [programIn_of_tree? path htree]
    split
    · next text htext =>
      constructor
      · rintro ⟨⟩
        exact .some ⟨rfl, htext⟩
      · rintro @⟨_, ⟨_, _⟩, ⟨rfl, htext'⟩⟩
        obtain rfl := Option.some.inj (htext.symm.trans htext')
        rfl
    · next htext =>
      constructor
      · rintro ⟨⟩
      · rintro ⟨⟨-, htext'⟩⟩
        rw [htext] at htext'
        cases htext'

theorem lists_of_decodes {store : ProgramStore} {trees : List (String × ByteArray)}
    {found : List (String × String)} (h : List.Forall₂ Decodes trees found)
    (hstore : store.Has trees) : store.Readable ∧ store.Lists (ofList found) := by
  have hread : ∀ tree ∈ trees, ∃ p ∈ found, Decodes tree p := by
    intro tree htree
    exact exists_of_mem_forall₂ h.flip htree
  constructor
  · intro name octets hname
    obtain ⟨p, -, -, htext⟩ := hread _ ((hstore name octets).mp hname)
    exact ⟨p.2, htext⟩
  · apply ProgramStore.lists_ofList
    intro name text
    constructor
    · intro hmem
      obtain ⟨⟨_, octets⟩, htree, rfl, htext⟩ := exists_of_mem_forall₂ h hmem
      exact ⟨octets, (hstore _ _).mpr htree, htext⟩
    · rintro ⟨octets, hname, htext⟩
      obtain ⟨⟨_, _⟩, hmem, rfl, htext'⟩ := hread _ ((hstore name octets).mp hname)
      obtain rfl := Option.some.inj (htext.symm.trans htext')
      exact hmem

theorem exists_mapM_programIn_iff (path : String) {entries : List DirectoryEntry}
    {found : List (String × String)} :
    (∃ ps, entries.mapM (programIn path) = .ok ps ∧ ps.filterMap id = found) ↔
      List.Forall₂ Decodes (entries.filterMap DirectoryEntry.tree?) found := by
  simp only [mapM_eq_ok_iff, programIn_eq_ok_iff]
  constructor
  · rintro ⟨ps, hps, rfl⟩
    exact List.rel_filterMap (fun _ _ h => h) hps
  · intro h
    induction entries generalizing found with
    | nil =>
      obtain rfl := List.forall₂_nil_left_iff.mp h
      exact ⟨[], .nil, rfl⟩
    | cons entry entries ih =>
      cases htree : entry.tree? with
      | none =>
        rw [List.filterMap_cons_none htree] at h
        obtain ⟨ps, hps, rfl⟩ := ih h
        exact ⟨none :: ps, .cons (htree ▸ .none) hps, rfl⟩
      | some tree =>
        rw [List.filterMap_cons_some htree] at h
        obtain ⟨p, found, hp, hfound, rfl⟩ := List.forall₂_cons_left_iff.mp h
        obtain ⟨ps, hps, rfl⟩ := ih hfound
        exact ⟨some p :: ps, .cons (htree ▸ .some hp) hps, rfl⟩

theorem ofDirectory_eq_ok_iff {path : String} {entries : List DirectoryEntry}
    {programs : Programs} :
    ofDirectory path entries = .ok programs ↔
      ∃ found, List.Forall₂ Decodes (entries.filterMap DirectoryEntry.tree?) found ∧
        programs = ofList found := by
  constructor
  · intro h
    obtain ⟨ps, hps, h⟩ := bind_eq_ok_iff.mp h
    exact ⟨_, (exists_mapM_programIn_iff path).mp ⟨ps, hps, rfl⟩, (Except.ok.inj h).symm⟩
  · rintro ⟨found, hfound, rfl⟩
    obtain ⟨ps, hps, rfl⟩ := (exists_mapM_programIn_iff path).mpr hfound
    exact bind_eq_ok_iff.mpr ⟨ps, hps, rfl⟩

def encoded (p : String × String) : String × ByteArray :=
  (p.1, p.2.toUTF8)

theorem decodes_encoded (found : List (String × String)) :
    List.Forall₂ Decodes (found.map encoded) found := by
  rw [List.forall₂_map_left_iff, List.forall₂_same]
  intro p _
  exact ⟨rfl, fromUTF8?_toUTF8 p.2⟩

/-- A text that maps the names of a store to their programs, in whatever order. -/
def Spells (read : MappingReader) (text : String) (store : ProgramStore) : Prop :=
  ∃ found, read text = some found ∧ store.Has (found.map encoded)

variable {read : MappingReader} {text : String} {store : ProgramStore}

theorem Spells.readable (h : Spells read text store) : store.Readable := by
  obtain ⟨found, -, hstore⟩ := h
  exact (lists_of_decodes (decodes_encoded found) hstore).1

theorem Spells.exists_lists (h : Spells read text store) (path : Option String) :
    ∃ programs, store.Lists programs ∧ ofYaml read path text = .ok programs := by
  obtain ⟨found, hread, hstore⟩ := h
  refine ⟨ofList found, (lists_of_decodes (decodes_encoded found) hstore).2, ?_⟩
  unfold ofYaml
  rw [hread]

end Programs

structure Bank.Carries (b : Bank) (store : ProgramStore) : Prop where
  sorted : b.names.toList.Pairwise (· < ·)
  mem_names_iff : ∀ name, name ∈ b.names ↔ (store name).isSome
  get? : ∀ index name, b.name? index = some name → b.indexOf? name = some index ∧
    ∃ octets text g, store name = some octets ∧ String.fromUTF8? octets = some text ∧
      Program.Gives text (.ok g) ∧ b.get? index = some g

inductive BankOrigin where
  | mapping (text : String)
  | found (path : String) (source : BankSource)

namespace BankOrigin

variable {read : MappingReader} {origin : BankOrigin} {store : ProgramStore}

def path? : BankOrigin → Option String
  | mapping _ => none
  | found path _ => some path

def load (read : MappingReader) : BankOrigin → Except BankError Bank
  | mapping text => Bank.ofYaml read text
  | found path source => Bank.load read path source

def programs (read : MappingReader) : BankOrigin → Except BankError Programs
  | mapping text => Programs.ofYaml read none text
  | found path (.directory entries) => Programs.ofDirectory path entries
  | found path (.file content) =>
    match String.fromUTF8? content with
    | some text => Programs.ofYaml read (some path) text
    | none => .error (.unreadable path)
  | found path .missing => .error (.unreadable path)

theorem load_eq_bind (read : MappingReader) (origin : BankOrigin) :
    origin.load read = origin.programs read >>= Bank.ofPrograms origin.path? := by
  cases origin with
  | mapping text => rfl
  | found path source =>
    cases source with
    | directory entries => rfl
    | file content =>
      dsimp only [load, Bank.load, programs]
      cases String.fromUTF8? content with
      | none => rfl
      | some text => rfl
    | missing => rfl

/--
An origin from which the programs of a store can be had. Nothing is said of the order in which a
mapping or a directory lists them.
-/
inductive Holds (read : MappingReader) : BankOrigin → ProgramStore → Prop where
  | mapping {text : String} {store : ProgramStore} :
      Programs.Spells read text store → Holds read (.mapping text) store
  | file {path text : String} {content : ByteArray} {store : ProgramStore} :
      String.fromUTF8? content = some text → Programs.Spells read text store →
      Holds read (.found path (.file content)) store
  | directory {path : String} {entries : List DirectoryEntry} {store : ProgramStore} :
      (∀ name octets, store name = some octets ↔
        name ≠ "" ∧ .file (name ++ ".bt") octets ∈ entries) →
      Holds read (.found path (.directory entries)) store

theorem has_trees_iff {entries : List DirectoryEntry} :
    store.Has (entries.filterMap DirectoryEntry.tree?) ↔
      ∀ name octets, store name = some octets ↔
        name ≠ "" ∧ .file (name ++ ".bt") octets ∈ entries := by
  simp [ProgramStore.Has, DirectoryEntry.tree?_eq_some_iff, and_comm]

theorem exists_has_trees {entries : List DirectoryEntry}
    (h : (entries.filterMap DirectoryEntry.fileName?).Nodup) :
    ∃ store : ProgramStore, store.Has (entries.filterMap DirectoryEntry.tree?) := by
  have hnames : (entries.filterMap DirectoryEntry.tree?).map Prod.fst =
      (entries.filterMap DirectoryEntry.fileName?).filterMap treeName? := by
    rw [List.map_filterMap, List.filterMap_filterMap]
    congr 1
    funext entry
    cases entry with
    | file name octets => simp [DirectoryEntry.tree?, DirectoryEntry.fileName?, Function.comp_def]
    | unnamed => rfl
    | directory => rfl
  apply ProgramStore.exists_has
  rw [hnames]
  apply List.Nodup.filterMap ?_ h
  intro file other name hfile hother
  rw [(treeName?_eq_some_iff.mp hfile).2, (treeName?_eq_some_iff.mp hother).2]

theorem Holds.of_perm {path other : String} {entries others : List DirectoryEntry}
    (h : (found path (.directory entries)).Holds read store) (hperm : others.Perm entries) :
    (found other (.directory others)).Holds read store := by
  cases h with
  | directory hentries =>
    apply Holds.directory
    intro name octets
    rw [hentries, hperm.mem_iff]

theorem Holds.exists_programs (h : origin.Holds read store) (hreadable : store.Readable) :
    ∃ programs, store.Lists programs ∧ origin.programs read = .ok programs := by
  cases h with
  | mapping hstore => exact hstore.exists_lists none
  | @file path _ _ _ hcontent hstore =>
    rw [BankOrigin.programs, hcontent]
    exact hstore.exists_lists (some path)
  | @directory path entries _ hentries =>
    have hstore := has_trees_iff.mpr hentries
    have hdecodes : ∀ tree ∈ entries.filterMap DirectoryEntry.tree?,
        ∃ p, Programs.Decodes tree p := by
      intro tree htree
      obtain ⟨text, htext⟩ := hreadable tree.1 tree.2 ((hstore _ _).mpr htree)
      exact ⟨(tree.1, text), rfl, htext⟩
    obtain ⟨found, hfound⟩ := exists_forall₂ hdecodes
    exact ⟨_, (Programs.lists_of_decodes hfound hstore).2,
      Programs.ofDirectory_eq_ok_iff.mpr ⟨found, hfound, rfl⟩⟩

theorem Holds.readable_of_programs {programs : Programs} (h : origin.Holds read store)
    (hprograms : origin.programs read = .ok programs) : store.Readable := by
  cases h with
  | mapping hstore => exact hstore.readable
  | file _ hstore => exact hstore.readable
  | directory hentries =>
    obtain ⟨found, hfound, -⟩ := Programs.ofDirectory_eq_ok_iff.mp hprograms
    exact (Programs.lists_of_decodes hfound (has_trees_iff.mpr hentries)).1

theorem Holds.programs_eq_ok_iff {programs : Programs} (h : origin.Holds read store) :
    origin.programs read = .ok programs ↔ store.Readable ∧ store.Lists programs := by
  constructor
  · intro hprograms
    have hreadable := h.readable_of_programs hprograms
    obtain ⟨others, hothers, heq⟩ := h.exists_programs hreadable
    obtain rfl := Except.ok.inj (hprograms.symm.trans heq)
    exact ⟨hreadable, hothers⟩
  · rintro ⟨hreadable, hlists⟩
    obtain ⟨others, hothers, heq⟩ := h.exists_programs hreadable
    rw [hlists.unique hothers]
    exact heq

theorem ofPrograms_eq_ok_iff {path : Option String} {programs : Programs} {b : Bank} :
    Bank.ofPrograms path programs = .ok b ↔ programs.build = .ok b := by
  unfold Bank.ofPrograms
  cases programs.build with
  | error e => simp [Except.mapError]
  | ok b' => simp [Except.mapError]

theorem ofPrograms_eq_error_iff {path : Option String} {programs : Programs} {e : BankError} :
    Bank.ofPrograms path programs = .error e ↔
      ∃ failure, programs.build = .error failure ∧ e = .build path failure.1 failure.2 := by
  unfold Bank.ofPrograms
  cases programs.build with
  | error e => simp [Except.mapError, eq_comm]
  | ok b' => simp [Except.mapError]

theorem Holds.load_eq_ok_iff {b : Bank} (h : origin.Holds read store) :
    origin.load read = .ok b ↔
      store.Readable ∧ ∃ programs, store.Lists programs ∧ programs.build = .ok b := by
  rw [load_eq_bind, bind_eq_ok_iff]
  simp only [h.programs_eq_ok_iff, ofPrograms_eq_ok_iff, and_assoc, exists_and_left]

theorem Holds.exists_load_iff (h : origin.Holds read store) :
    (∃ b, origin.load read = .ok b) ↔ ∀ name octets, store name = some octets → ¬Broken octets := by
  simp only [h.load_eq_ok_iff, not_broken_iff]
  constructor
  · rintro ⟨b, hreadable, programs, hlists, hb⟩ name octets hname
    obtain ⟨text, htext⟩ := hreadable name octets hname
    have hmem := (hlists.mem_iff name text).mpr ⟨octets, hname, htext⟩
    obtain ⟨g, hg⟩ := Programs.exists_build_iff.mp ⟨b, hb⟩ _ hmem
    exact ⟨text, g, htext, hg⟩
  · intro hsound
    have hreadable : store.Readable := by
      intro name octets hname
      obtain ⟨text, -, htext, -⟩ := hsound name octets hname
      exact ⟨text, htext⟩
    obtain ⟨programs, hlists, -⟩ := h.exists_programs hreadable
    have hbuild : ∀ p ∈ programs, ∃ g, Program.Gives p.2 (.ok g) := by
      rintro ⟨name, text⟩ hmem
      obtain ⟨octets, hname, htext⟩ := (hlists.mem_iff name text).mp hmem
      obtain ⟨text', g, htext', hg⟩ := hsound name octets hname
      obtain rfl := Option.some.inj (htext.symm.trans htext')
      exact ⟨g, hg⟩
    obtain ⟨b, hb⟩ := Programs.exists_build_iff.mpr hbuild
    exact ⟨b, hreadable, programs, hlists, hb⟩

theorem Holds.exists_error_iff (h : origin.Holds read store) :
    (∃ e, origin.load read = .error e) ↔
      ∃ name octets, store name = some octets ∧ Broken octets := by
  rw [exists_eq_error_iff, h.exists_load_iff]
  simp only [not_forall, not_not, exists_prop]

theorem Holds.carries_of_load {b : Bank} (h : origin.Holds read store)
    (hb : origin.load read = .ok b) : b.Carries store := by
  obtain ⟨hreadable, programs, hlists, hb⟩ := h.load_eq_ok_iff.mp hb
  have hsorted : b.names.toList.Pairwise (· < ·) := by
    rw [Programs.names_of_build hb]
    exact List.pairwise_map.mpr hlists.sorted
  refine ⟨hsorted, ?_, ?_⟩
  · intro name
    rw [← Array.mem_toList_iff, Programs.names_of_build hb, List.mem_map,
      Option.isSome_iff_exists]
    constructor
    · rintro ⟨⟨_, text⟩, hmem, rfl⟩
      obtain ⟨octets, hname, -⟩ := (hlists.mem_iff _ text).mp hmem
      exact ⟨octets, hname⟩
    · rintro ⟨octets, hname⟩
      obtain ⟨text, htext⟩ := hreadable name octets hname
      exact ⟨(name, text), (hlists.mem_iff name text).mpr ⟨octets, hname, htext⟩, rfl⟩
  · intro index name hname
    obtain ⟨text, g, hmem, hg, hget⟩ := Programs.get?_of_build hb hname
    obtain ⟨octets, hoctets, htext⟩ := (hlists.mem_iff name text).mp hmem
    exact ⟨Bank.indexOf?_of_name? hsorted hname, octets, text, g, hoctets, htext, hg, hget⟩

theorem Holds.first_of_load {e : BankError} (h : origin.Holds read store)
    (hreadable : store.Readable) (he : origin.load read = .error e) :
    ∃ name octets text error, store name = some octets ∧
      String.fromUTF8? octets = some text ∧ Program.Gives text (.error error) ∧
        e = .build origin.path? name error ∧
          ∀ other octets, store other = some octets → Broken octets → name ≤ other := by
  obtain ⟨programs, hlists, hprograms⟩ := h.exists_programs hreadable
  rw [load_eq_bind, hprograms, ok_bind] at he
  obtain ⟨failure, hfailure, rfl⟩ := ofPrograms_eq_error_iff.mp he
  obtain ⟨before, ⟨name, text⟩, after, rfl, hbefore, hname, herror⟩ :=
    Programs.exists_first_of_foldlM_eq_error hfailure
  dsimp only at hname herror
  obtain ⟨octets, hoctets, htext⟩ := (hlists.mem_iff name text).mp (by simp)
  refine ⟨name, octets, text, failure.2, hoctets, htext, herror, by rw [hname], ?_⟩
  intro other octets' hother hbroken
  obtain ⟨text', htext'⟩ := hreadable other octets' hother
  have hmem := (hlists.mem_iff other text').mpr ⟨octets', hother, htext'⟩
  rw [List.mem_append, List.mem_cons] at hmem
  -- All programs in front of the first failure compile, so the broken one is not among them.
  rcases hmem with hmem | heq | hmem
  · obtain ⟨g, hg⟩ := hbefore _ hmem
    exact absurd hbroken (not_broken_iff.mpr ⟨text', g, htext', hg⟩)
  · obtain ⟨rfl, -⟩ := Prod.mk.inj heq
    exact String.le_refl _
  · have hlt := List.rel_of_pairwise_cons (List.pairwise_append.mp hlists.sorted).2.1 hmem
    exact String.not_lt.mp (String.lt_asymm hlt)

end BankOrigin

end BattleTree
