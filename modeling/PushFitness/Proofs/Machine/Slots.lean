import PushFitness.Machine.Stacks

/-!
# All seven stacks at once

A statement about every stack needs a way to go through the stacks and to see what they
hold as items of one kind. `Slot` names all of them, the input stack included, and
`items` shows the typed stacks as the programs see them: a number on the integer stack
is the item that was pushed for it.
-/

namespace PushFitness

inductive Slot
  | integer
  | float
  | boolean
  | exec
  | code
  | name
  | input
deriving DecidableEq

namespace Slot

def all : List Slot := [integer, float, boolean, exec, code, name, input]

theorem mem_all (slot : Slot) : slot ∈ all := by
  cases slot <;> decide

instance {p : Slot → Prop} [DecidablePred p] : Decidable (∀ slot, p slot) :=
  decidable_of_iff (∀ slot ∈ all, p slot)
    ⟨fun h slot => h slot slot.mem_all, fun h slot _ => h slot⟩

end Slot

def StackName.slot : StackName → Slot
  | integer => .integer
  | float => .float
  | boolean => .boolean
  | exec => .exec
  | code => .code
  | name => .name

theorem StackName.slot_eq_integer_iff {on : StackName} : on.slot = .integer ↔ on = .integer := by
  cases on <;> decide

/-- What a stack holds, as items. -/
def Stacks.items (s : Stacks) : Slot → List Item
  | .integer => s.integer.map .int
  | .float => s.float.map .float
  | .boolean => s.boolean.map .bool
  | .exec => s.exec
  | .code => s.code
  | .name => s.name
  | .input => s.input

theorem Stacks.length_items (s : Stacks) (on : StackName) :
    (s.items on.slot).length = s.depth on := by
  cases on with
  | integer | float | boolean => exact List.length_map _
  | exec | code | name => rfl

/-- Stacks are the same if they hold the same items. -/
theorem Stacks.items_injective {s t : Stacks} (h : s.items = t.items) : s = t := by
  have hinteger : s.integer = t.integer :=
    (List.map_inj_right fun _ _ => Item.int.inj).mp (congrFun h .integer)
  have hfloat : s.float = t.float :=
    (List.map_inj_right fun _ _ => Item.float.inj).mp (congrFun h .float)
  have hboolean : s.boolean = t.boolean :=
    (List.map_inj_right fun _ _ => Item.bool.inj).mp (congrFun h .boolean)
  have hexec : s.exec = t.exec := congrFun h .exec
  have hcode : s.code = t.code := congrFun h .code
  have hname : s.name = t.name := congrFun h .name
  have hinput : s.input = t.input := congrFun h .input
  cases s
  cases t
  congr

end PushFitness
