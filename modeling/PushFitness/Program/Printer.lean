import PushFitness.Binary64.Text
import PushFitness.Program.Item
import PushFitness.Text.Numeral

/-!
# Writing programs

A list is written between round brackets with one blank after the opening bracket
and after every item; a leaf is written as the word that reads back as it.
-/

namespace PushFitness

namespace Item

mutual

/-- The characters an item is written with. -/
def chars : Item → List Char
  | int n => Text.integerChars n
  | float x => x.chars
  | bool true => ['t', 'r', 'u', 'e']
  | bool false => ['f', 'a', 'l', 's', 'e']
  | name s => s.toList
  | list items => '(' :: ' ' :: (charsOf items ++ [')'])
  | hole => ['N', 'o', 'n', 'e']

/-- Several items, each with a blank behind it. -/
def charsOf : List Item → List Char
  | [] => []
  | item :: items => item.chars ++ ' ' :: charsOf items

end

def text (item : Item) : String := String.ofList item.chars

end Item

/-- The text of a program, brackets included. -/
def Program.text (program : Program) : String := (Item.list program).text

end PushFitness
