import PushFitness.Int32
import PushFitness.Program.Item
import PushFitness.Machine.Stack

/-!
# The seven stacks

Numbers and truth values have stacks of their own, which hold nothing else. The
stacks for what is still to be executed, for code, for names and for inputs hold
items of any kind. Every stack has its top first.
-/

namespace PushFitness

/-- The contents of the seven stacks. -/
structure Stacks where
  integer : List Int
  float : List Binary64
  boolean : List Bool
  exec : List Item
  code : List Item
  name : List Item
  input : List Item

/-- The stacks that programs can rearrange: all but the input stack. -/
inductive StackName
  | integer
  | float
  | boolean
  | exec
  | code
  | name
deriving DecidableEq

namespace StackName

def all : List StackName := [integer, float, boolean, exec, code, name]

def text : StackName → String
  | integer => "integer"
  | float => "float"
  | boolean => "boolean"
  | exec => "exec"
  | code => "code"
  | name => "name"

end StackName

namespace Stacks

def empty : Stacks := ⟨[], [], [], [], [], [], []⟩

instance : Inhabited Stacks := ⟨empty⟩

/-- The number of items on a stack. -/
def depth (s : Stacks) : StackName → Nat
  | .integer => s.integer.length
  | .float => s.float.length
  | .boolean => s.boolean.length
  | .exec => s.exec.length
  | .code => s.code.length
  | .name => s.name.length

/-- Applies a move that does not look at the items to one stack. -/
def rearrange (s : Stacks) (move : {α : Type} → List α → List α) : StackName → Stacks
  | .integer => { s with integer := move s.integer }
  | .float => { s with float := move s.float }
  | .boolean => { s with boolean := move s.boolean }
  | .exec => { s with exec := move s.exec }
  | .code => { s with code := move s.code }
  | .name => { s with name := move s.name }

/-- Puts an item on the stack of its kind. Integers are reduced to 32 bits, a list is
to be executed, and what is not a value is kept with the names. -/
def push (s : Stacks) : Item → Stacks
  | .int n => { s with integer := Int32.wrap n :: s.integer }
  | .float x => { s with float := x :: s.float }
  | .bool b => { s with boolean := b :: s.boolean }
  | .list items => { s with exec := .list items :: s.exec }
  | .name n => { s with name := .name n :: s.name }
  | .hole => { s with name := .hole :: s.name }

/-- Pushes several items, the first one first. -/
def pushAll (s : Stacks) (items : List Item) : Stacks := items.foldl push s

/-- Puts a program on the code stack and the exec stack. -/
def load (s : Stacks) (program : Program) : Stacks :=
  { s with code := .list program :: s.code, exec := .list program :: s.exec }

end Stacks

end PushFitness
