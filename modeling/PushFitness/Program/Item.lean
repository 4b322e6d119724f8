import PushFitness.Binary64.Basic

/-!
# Programs

A program is a tree: its leaves are integers, doubles, truth values and names, its
inner nodes lists. Names are instructions or plain symbols; which of the two a
name is, only the machine knows.

A stack may also hold a place without a value, which no text denotes and no
machine can execute.
-/

namespace PushFitness

/-- A point of a program, which is also what the untyped stacks hold. -/
inductive Item
  | int (n : Int)
  | float (x : Binary64)
  | bool (b : Bool)
  | name (s : String)
  | list (items : List Item)
  | hole

/-- A program is the list of its items. -/
abbrev Program := List Item

namespace Item

instance : Inhabited Item := ⟨hole⟩

mutual

/-- The number of points of an item: every leaf and every list counts once. -/
def size : Item → Nat
  | list items => 1 + sizes items
  | int _ | float _ | bool _ | name _ | hole => 1

/-- The number of points of several items. -/
def sizes : List Item → Nat
  | [] => 0
  | item :: items => item.size + sizes items

end

mutual

/-- The leaves of an item from left to right. -/
def leaves : Item → List Item
  | list items => leavesOf items
  | leaf => [leaf]

/-- The leaves of several items from left to right. -/
def leavesOf : List Item → List Item
  | [] => []
  | item :: items => item.leaves ++ leavesOf items

end

end Item

/-- The number of points of a program, its own list included. -/
def Program.size (program : Program) : Nat := (Item.list program).size

end PushFitness
