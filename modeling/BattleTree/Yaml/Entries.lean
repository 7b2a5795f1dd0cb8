import BattleTree.Yaml.Reader

/-!
This module contains the reading of documents that map texts to texts.
-/

namespace BattleTree.Yaml

def textsOf? : Option Node → Option (List (String × String))
  | none => some []
  | some (.mapping entries) =>
    entries.mapM fun (key, value) => do return (← key.text?, ← value.text?)
  | some node => if node.isAbsent then some [] else none

def readTexts? (text : String) : Option (List (String × String)) := do
  textsOf? (← read? text)

end BattleTree.Yaml
