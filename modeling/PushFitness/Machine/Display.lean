import PushFitness.Machine.Stacks
import PushFitness.Program.Printer

/-!
# Showing the stacks

One line for each stack, with the stacks of programs first, and each stack from its
bottom to its top.
-/

namespace PushFitness.Stacks

/-- One line: the name of a stack and its items. -/
def line (name : String) (items : List Item) : String :=
  name ++ " stack: [ " ++ String.ofList (Item.charsOf items.reverse) ++ "]"

/-- The lines for all stacks. -/
def lines (s : Stacks) : List String := [
  line "exec" s.exec, line "code" s.code,
  line "integer" (s.integer.map .int), line "float" (s.float.map .float),
  line "boolean" (s.boolean.map .bool), line "name" s.name, line "input" s.input]

def text (s : Stacks) : String := "\n".intercalate s.lines

end PushFitness.Stacks
