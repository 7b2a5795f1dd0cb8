/-!
This module contains the joining of file paths.
-/

namespace BattleTree.Path

def isAbsolute (path : String) : Bool :=
  path.startsWith "/"

def needsSeparator (directory : String) : Bool :=
  !directory.isEmpty && !directory.endsWith "/"

def join (directory path : String) : String :=
  if isAbsolute path then path
  else if needsSeparator directory then directory ++ "/" ++ path
  else directory ++ path

end BattleTree.Path
