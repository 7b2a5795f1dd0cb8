/-!
This module contains references to agents: the observer itself, or a slot of the foes or friends.
-/

namespace BattleTree

inductive Reference where
  | self
  | enemy (slot : UInt64)
  | friend (slot : UInt64)
  deriving DecidableEq, Repr

namespace Reference

def text : Reference → String
  | self => "self"
  | enemy slot => s!"enemy_{slot.toNat}"
  | friend slot => s!"friend_{slot.toNat}"

def number? (digits : List Char) : Option Nat :=
  if digits.isEmpty || !digits.all Char.isDigit then
    none
  else
    some (digits.foldl (fun n c => 10 * n + (c.toNat - '0'.toNat)) 0)

def splitLast? (word : List Char) : Option (List Char × List Char) :=
  let reversed := word.reverse
  match reversed.dropWhile (· ≠ '_') with
  | [] => none
  | _ :: front => some (front.reverse, (reversed.takeWhile (· ≠ '_')).reverse)

/--
The reference that a word spells: `self`, or `enemy` or `friend` with an underscore and a slot in
decimal. Leading zeros are ignored, and slots have 64 bits.
-/
def ofWord? (word : List Char) : Option Reference := do
  if word = "self".toList then
    return self
  let (name, digits) ← splitLast? word
  let slot ← number? digits
  guard (slot < UInt64.size)
  if name = "enemy".toList then
    return enemy (UInt64.ofNat slot)
  else if name = "friend".toList then
    return friend (UInt64.ofNat slot)
  else
    none

end Reference

end BattleTree
