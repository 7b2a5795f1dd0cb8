import BattleTree.Run.Config
import BattleTree.Yaml.Count
import BattleTree.Yaml.Reader

/-!
This module contains the loading of run parameters from YAML documents.
-/

namespace BattleTree

inductive ConfigError where
  | unreadable (path : String)
  | malformed (path : String)
  | notPositive (path : Option String) (field : RunCount)
  deriving DecidableEq, Repr

def ConfigError.message : ConfigError → String
  | unreadable path => s!"Failed to read config from {path}: io"
  | malformed path => s!"Failed to parse config from {path}: yaml"
  | notPositive path field =>
    let context := path.elim "" fun path => s!"Invalid config in {path}: "
    context ++ s!"`{Keyword.spelling field}` must be at least 1, got 0"

inductive ConfigField where
  | count (field : RunCount)
  | bank
  deriving DecidableEq, Repr

namespace ConfigField

def all : List ConfigField :=
  (Keyword.all : List RunCount).map count ++ [bank]

def name : ConfigField → String
  | count field => Keyword.spelling field
  | bank => "bank"

def ofName? (name : String) : Option ConfigField :=
  all.find? fun field => field.name = name

def set? (field : ConfigField) (node : Yaml.Node) (c : RunConfig) : Option RunConfig :=
  match field with
  | count field => do return c.setCount (← node.count?) field
  | bank => do return { c with bank := ← node.text? }

end ConfigField

namespace RunConfig

def setFields? (c : RunConfig) : (seen : List ConfigField) → List (Yaml.Node × Yaml.Node) →
    Option RunConfig
  | _, [] => some c
  | seen, (key, value) :: entries => do
    match ConfigField.ofName? (← key.text?) with
    | none => c.setFields? seen entries
    | some field =>
      guard (field ∉ seen)
      let c ← field.set? value c
      c.setFields? (field :: seen) entries

def ofDocument? : Option Yaml.Node → Option RunConfig
  | none => some standard
  | some (.mapping entries) => standard.setFields? [] entries
  | some node => if node.isAbsent then some standard else none

def check (path : Option String) (c : RunConfig) : Except ConfigError RunConfig :=
  match c.validate with
  | .ok () => .ok c
  | .error field => .error (.notPositive path field)

def load (path : String) (content : Option ByteArray) : Except ConfigError RunConfig :=
  match content.bind String.fromUTF8? with
  | none => .error (.unreadable path)
  | some text =>
    match (Yaml.read? text).bind ofDocument? with
    | none => .error (.malformed path)
    | some c => c.check (some path)

end RunConfig

end BattleTree
