/-!
This module contains closed sets of keywords: types whose values a program spells as words.
-/

namespace BattleTree

class Keyword (α : Type) where
  all : List α
  spelling : α → String

class Parameter (α : Type) extends Keyword α where
  what : String

namespace Keyword

variable {α : Type} [Keyword α]

def read? (word : String) : Option α :=
  Keyword.all.find? fun a => spelling a == word

variable (α) in
def spellings : List String :=
  (Keyword.all : List α).map spelling

theorem spelling_of_read? {word : String} {a : α} (h : read? word = some a) :
    spelling a = word := by
  have := List.find?_some h
  simpa using this

end Keyword

variable (α : Type) in
def Parameter.menu [Parameter α] : String :=
  Parameter.what α ++ " (" ++ String.intercalate ", " (Keyword.spellings α) ++ ")"

end BattleTree
