import BattleTree.Yaml.Cursor
import BattleTree.Yaml.Digit

/-!
This module contains tags, which name the types of nodes. A tag is written as a handle and a suffix.
-/

namespace BattleTree.Yaml

structure Tag where
  handle : String
  suffix : String
  deriving DecidableEq, Repr

abbrev Handles := List (String × String)

def coreTag (name : String) : String :=
  "tag:yaml.org,2002:" ++ name

def standardHandles : Handles :=
  [("!", "!"), ("!!", coreTag "")]

def Tag.text? (handles : Handles) (tag : Tag) : Option String :=
  if tag.handle.isEmpty then some tag.suffix
  else (handles.lookup tag.handle).map fun start => start ++ tag.suffix

def isNameChar (c : Char) : Bool :=
  c.isAlphanum || c = '_' || c = '-'

def isTagChar (c : Char) : Bool :=
  isNameChar c || ";/?:@&=+$.!~*'()".toList.contains c

def isVerbatimTagChar (c : Char) : Bool :=
  isTagChar c || ",[]".toList.contains c

def pendingAfter? (pending octet : Nat) : Option Nat :=
  if 0 < pending then
    if 0x80 ≤ octet ∧ octet < 0xc0 then some (pending - 1) else none
  else if octet < 0x80 then some 0
  else if octet < 0xc0 then none
  else if octet < 0xe0 then some 1
  else if octet < 0xf0 then some 2
  else if octet < 0xf8 then some 3
  else none

def tagTextOf (reversed : List Char) : String :=
  String.ofList (reversed.reverse.takeWhile fun c => c ≠ '\x00')

/--
The rest of a tag after the reversed `text`, and what follows it. Every escaped octet is kept as the
character with its number.
-/
def tagTextFrom (inside : Char → Bool) : (pending : Nat) → (text : List Char) → List Char →
    Option (String × List Char)
  | pending, text, '%' :: a :: b :: cs => do
    let octet ← digits? 16 [a, b]
    let pending ← pendingAfter? pending octet
    tagTextFrom inside pending (Char.ofNat octet :: text) cs
  | 0, text, c :: cs =>
    if inside c then tagTextFrom inside 0 (c :: text) cs
    else some (tagTextOf text, c :: cs)
  | 0, text, [] => some (tagTextOf text, [])
  | _, _, _ => none

def tagText? (inside : Char → Bool) (cs : List Char) : Option (String × List Char) := do
  let (text, rest) ← tagTextFrom inside 0 [] cs
  guard (rest.length < cs.length)
  return (text, rest)

def tag? : List Char → Option (Tag × List Char)
  | '<' :: cs => do
    let (suffix, rest) ← tagText? isVerbatimTagChar cs
    match rest with
    | '>' :: rest => return (⟨"", suffix⟩, rest)
    | _ => none
  | cs =>
    match cs.dropWhile isNameChar with
    | '!' :: rest => do
      let (suffix, rest) ← tagText? isTagChar rest
      return (⟨String.ofList ('!' :: cs.takeWhile isNameChar ++ ['!']), suffix⟩, rest)
    | _ => do
      let (suffix, rest) ← tagTextFrom isTagChar 0 [] cs
      return (if suffix.isEmpty then ⟨"", "!"⟩ else ⟨"!", suffix⟩, rest)

def endsTag (flow : Bool) (cs : List Char) : Bool :=
  endsWord cs || (flow && cs.head? = some ',')

end BattleTree.Yaml
