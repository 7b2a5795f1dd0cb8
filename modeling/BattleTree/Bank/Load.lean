import BattleTree.Bank.Programs
import BattleTree.Text.Path

/-!
This module contains the loading of banks: from a YAML mapping of names to program texts, or from a
directory that holds one program in each of its tree files. YAML is read by whatever reader the
caller brings along.
-/

namespace BattleTree

/--
A reader of mappings from texts to texts. It gives the entries in the order in which they are
written down, or none for a text that is no such mapping.
-/
abbrev MappingReader := String → Option (List (String × String))

inductive DirectoryEntry where
  | file (name : String) (content : ByteArray)
  | unnamed (name : ByteArray) (content : ByteArray)
  | directory (name : String)

inductive BankSource where
  | directory (entries : List DirectoryEntry)
  | file (content : ByteArray)
  | missing

inductive BankError where
  | unreadable (path : String)
  | unreadableTree (path : String)
  | malformed (path : Option String)
  | build (path : Option String) (name : String) (error : BuildError)
  deriving DecidableEq, Repr

def BankError.message : BankError → String
  | unreadable path => s!"Failed to read tree bank from {path}: io"
  | unreadableTree path => s!"Failed to read tree from {path}: io"
  | malformed none => "Failed to parse tree bank: yaml"
  | malformed (some path) => s!"Failed to parse tree bank from {path}: yaml"
  | build none name error => s!"Failed to build tree `{name}`: {error.message}"
  | build (some path) name error =>
    s!"In tree bank {path}: Failed to build tree `{name}`: {error.message}"

def treeName? (file : String) : Option String :=
  match file.toList.reverse with
  | 't' :: 'b' :: '.' :: name => if name.isEmpty then none else some (String.ofList name.reverse)
  | _ => none

namespace Programs

def programIn (path : String) : DirectoryEntry → Except BankError (Option (String × String))
  | .unnamed _ _ | .directory _ => .ok none
  | .file file content =>
    match treeName? file with
    | none => .ok none
    | some name =>
      match String.fromUTF8? content with
      | some text => .ok (some (name, text))
      | none => .error (.unreadableTree (Path.join path file))

def ofDirectory (path : String) (entries : List DirectoryEntry) : Except BankError Programs := do
  let programs ← entries.mapM (programIn path)
  return ofList (programs.filterMap id)

def ofYaml (read : MappingReader) (path : Option String) (text : String) :
    Except BankError Programs :=
  match read text with
  | some entries => .ok (ofList entries)
  | none => .error (.malformed path)

end Programs

namespace Bank

def ofPrograms (path : Option String) (programs : Programs) : Except BankError Bank :=
  programs.build.mapError fun (name, e) => .build path name e

def ofYaml (read : MappingReader) (text : String) : Except BankError Bank := do
  ofPrograms none (← Programs.ofYaml read none text)

def load (read : MappingReader) (path : String) (source : BankSource) : Except BankError Bank := do
  let programs ← match source with
    | .directory entries => Programs.ofDirectory path entries
    | .file content =>
      match String.fromUTF8? content with
      | some text => Programs.ofYaml read (some path) text
      | none => .error (.unreadable path)
    | .missing => .error (.unreadable path)
  ofPrograms (some path) programs

end Bank

end BattleTree
