import PushFitness.Proofs.Machine.Slots
import PushFitness.Proofs.Machine.Effects

/-!
# The machine without types

The typed stacks cannot hold a value of the wrong kind, so of them nothing is left to
show. Here is the machine as it is without them: every stack is a list of items of any
kind, an operation finds out what its operands are when it has popped them, and its
result goes to a stack by the stack's name. Such a machine can go wrong. An operand may
be of another kind than the operation is for (`Fault.wrongKind`), and a result of the
wrong kind is put on a stack without a word and makes a later operation go wrong.

`apply_items` and `next_items` say that on typed stacks it never does: the untyped machine
does with their items what the typed one does. The integers of the two agree as well,
although only some of the untyped operations reduce their results to 32 bits, and some
reduce them twice.
-/

namespace PushFitness

/-- What can go wrong in a step. -/
inductive Fault
  | wrongKind
  | machine (e : MachineError)
deriving DecidableEq

/-- Seven stacks with items of any kind, tops first. -/
abbrev Untyped := Slot → List Item

/-- A kind of values: the stack for it, the items that have it, and how it is found out
whether an item does. -/
structure Kind (α : Type) where
  slot : Slot
  item : α → Item
  value? : Item → Option α
  value?_item : ∀ x, value? (item x) = some x

namespace Kind

variable {α : Type}

def integer : Kind Int where
  slot := .integer
  item := .int
  value?
    | .int n => some n
    | _ => none
  value?_item _ := rfl

def float : Kind Binary64 where
  slot := .float
  item := .float
  value?
    | .float x => some x
    | _ => none
  value?_item _ := rfl

def boolean : Kind Bool where
  slot := .boolean
  item := .bool
  value?
    | .bool b => some b
    | _ => none
  value?_item _ := rfl

/-- An item as an operand. -/
def operand (k : Kind α) (item : Item) : Except Fault α :=
  match k.value? item with
  | some x => .ok x
  | none => .error .wrongKind

theorem operand_item (k : Kind α) (x : α) : k.operand (k.item x) = .ok x := by
  simp only [operand, k.value?_item]

end Kind

/-! ## Operations that may have no value -/

/-- The remainder of an infinite number does not exist; the one by zero is settled before. -/
def FloatOp.value? (a b : Binary64) : FloatOp → Option Binary64
  | mod =>
    if b.isZero then some .zero
    else if a.isInfinite && !b.isNaN then none
    else some (a.remainder b)
  | op => some (op.apply a b)

def FloatFun.value? (x : Binary64) : FloatFun → Option Binary64
  | sin => x.sin?
  | cos => x.cos?
  | tan => x.tan?
  | exp => x.exp?
  | ln => x.ln?
  | f => some (f.apply x)

theorem FloatOp.value?_getD (op : FloatOp) (a b : Binary64) :
    (op.value? a b).getD .zero = op.apply a b := by
  cases op with
  | mod =>
      simp only [value?, apply]
      cases b.isZero with
      | true => rfl
      | false => cases a.isInfinite && !b.isNaN <;> rfl
  | _ => rfl

theorem FloatFun.value?_getD (f : FloatFun) (x : Binary64) :
    (f.value? x).getD .zero = f.apply x := by
  cases f <;> rfl

namespace Untyped

variable {α : Type}

def put (u : Untyped) (slot : Slot) (items : List Item) : Untyped :=
  fun other => if other = slot then items else u other

/-- Puts an item on a stack, whatever it is. -/
def add (u : Untyped) (slot : Slot) (item : Item) : Untyped := u.put slot (item :: u slot)

/-- The zero that stands for a missing result. -/
def zeroOf : Slot → Item
  | .float => .float .zero
  | _ => .int 0

/-- Pops two values of a kind, the right operand first, and puts the result on the stack
`out`. The stack of the operands says which zero a missing result is. -/
def binary (k : Kind α) (out : Slot) (f : α → α → Option Item) (u : Untyped) :
    Except Fault Untyped :=
  match u k.slot with
  | b :: a :: rest => do
    let b ← k.operand b
    let a ← k.operand a
    return (u.put k.slot rest).add out ((f a b).getD (zeroOf k.slot))
  | _ => .ok u

/-- An item as the result of an operation on one value: on the integer stack it is
reduced, which only an integer can be. -/
def reduced (out : Slot) (item : Item) : Except Fault Item :=
  match out with
  | .integer => (Kind.integer.operand item).map fun n => .int (Int32.wrap n)
  | _ => .ok item

/-- Pops a value of a kind and puts the result on the stack `out`. That stack says which
zero a missing result is. -/
def unary (k : Kind α) (out : Slot) (f : α → Option Item) (u : Untyped) :
    Except Fault Untyped :=
  match u k.slot with
  | a :: rest => do
    let a ← k.operand a
    let result ← reduced out ((f a).getD (zeroOf out))
    return (u.put k.slot rest).add out result
  | [] => .ok u

/-- Puts an item on the stack for what it is. -/
def push (u : Untyped) (item : Item) : Untyped :=
  match item with
  | .bool _ => u.add .boolean item
  | .int n => u.add .integer (.int (Int32.wrap n))
  | .float _ => u.add .float item
  | .list _ => u.add .exec item
  | .name _ | .hole => u.add .name item

/-- Applies a move with the depth on top of the integer stack. If that is the stack to be
moved on, it has to hold something else too. -/
def moveAt (u : Untyped) (m : DepthMove) (on : StackName) : Except Fault Untyped :=
  if (u on.slot).isEmpty then .ok u
  else
    match u .integer with
    | [] => .ok u
    | d :: rest =>
      if on = .integer && rest.isEmpty then .ok u
      else do
        let d ← Kind.integer.operand d
        let v := u.put .integer rest
        return v.put on.slot (m.apply d (v on.slot))

/-- Turns a count and a body into a loop. -/
def countedLoop (u : Untyped) (wrapBody : Item → Item) : Except Fault Untyped :=
  match u .integer, u .exec with
  | count :: ints, body :: exec => do
    let count ← Kind.integer.operand count
    if count ≤ 0 then return u
    else
      let loop := Stacks.rangeItem 0 (count - 1) (wrapBody body)
      return (u.put .integer ints).put .exec (loop :: exec)
  | _, _ => .ok u

/-- Runs a body with the first of its indices, and puts the loop over the others behind
it. -/
def rangeLoop (u : Untyped) : Except Fault Untyped :=
  match u .integer, u .exec with
  | stop :: start :: ints, body :: exec => do
    let stop ← Kind.integer.operand stop
    let start ← Kind.integer.operand start
    let following := if start < stop then start + 1 else start - 1
    let later := if start = stop then exec else Stacks.rangeItem following stop body :: exec
    return (u.put .integer (.int start :: ints)).put .exec (body :: later)
  | _, _ => .ok u

/-- Keeps the first or the second item to be executed, by the truth value on top. -/
def branch (u : Untyped) : Except Fault Untyped :=
  match u .boolean, u .exec with
  | condition :: booleans, ifTrue :: ifFalse :: exec => do
    let condition ← Kind.boolean.operand condition
    return (u.put .boolean booleans).put .exec ((if condition then ifTrue else ifFalse) :: exec)
  | _, _ => .ok u

def inputIndex (u : Untyped) : Except Fault Untyped :=
  match u .integer, u .input with
  | i :: ints, input :: inputs => do
    let i ← Kind.integer.operand i
    match (input :: inputs).reverse[Stack.clamp i inputs.length]? with
    | some item => return (u.put .integer ints).push item
    | none => return u
  | _, _ => .ok u

def apply (maxPoints : Int) (u : Untyped) : Instruction → Except Fault Untyped
  | .integerOp op => u.binary .integer .integer fun a b => some (.int (op.apply a b))
  | .integerAbs => u.unary .integer .integer fun a => some (.int (Int32.wrap a.natAbs))
  | .integerNeg => u.unary .integer .integer fun a => some (.int (Int32.wrap (-a)))
  | .integerCompare c => u.binary .integer .boolean fun a b => some (.bool (c.integers a b))
  | .integerFromFloat => u.unary .float .integer fun x => x.truncate?.map .int
  | .integerFromBoolean => u.unary .boolean .integer fun b => some (.int (if b then 1 else 0))
  | .floatOp op => u.binary .float .float fun a b => (op.value? a b).map .float
  | .floatFun f => u.unary .float .float fun x => (f.value? x).map .float
  | .floatCompare c => u.binary .float .boolean fun a b => some (.bool (c.floats a b))
  | .floatFromInteger => u.unary .integer .float fun a => (Binary64.ofInt? a).map .float
  | .floatFromBoolean => u.unary .boolean .float fun b => some (.float (if b then .one else .zero))
  | .booleanOp op => u.binary .boolean .boolean fun a b => some (.bool (op.apply a b))
  | .booleanNot => u.unary .boolean .boolean fun b => some (.bool !b)
  | .booleanFromInteger => u.unary .integer .boolean fun a => some (.bool (a != 0))
  | .booleanFromFloat => u.unary .float .boolean fun x => some (.bool !x.isZero)
  | .constant b => .ok (u.add .boolean (.bool b))
  | .move m on => .ok (u.put on.slot (m.apply (u on.slot)))
  | .moveAt m on => u.moveAt m on
  | .stackDepth on => .ok (u.add .integer (.int (u on.slot).length))
  | .noop => .ok u
  | .quote =>
    match u .exec with
    | item :: exec => .ok ((u.put .exec exec).add .code item)
    | [] => .ok u
  | .branch => u.branch
  | .combinatorK =>
    match u .exec with
    | a :: _ :: exec => .ok (u.put .exec (a :: exec))
    | _ => .ok u
  | .combinatorS =>
    match u .exec with
    | a :: b :: c :: exec =>
      if (Item.list [b, c]).size ≤ maxPoints then
        .ok (u.put .exec (a :: c :: .list [b, c] :: exec))
      else .ok u
    | _ => .ok u
  | .combinatorY =>
    match u .exec with
    | a :: exec => .ok (u.put .exec (a :: .list [.name "exec.y", a] :: exec))
    | [] => .ok u
  | .doRange => u.rangeLoop
  | .doTimes => u.countedLoop Stacks.withoutIndex
  | .doCount => u.countedLoop id
  | .inputIndex => u.inputIndex
  | .inputAll => .ok ((u .input).reverse.foldl push u)
  | .inputAllReversed => .ok ((u .input).foldl push u)
  | .inputDepth => .ok (u.add .integer (.int (u .input).length))
  | .inputAt n =>
    match (u .input).reverse[n]? with
    | some item => .ok (u.push item)
    | none => .ok u

def execute (maxPoints : Int) (u : Untyped) : Item → Except Fault Untyped
  | .list items => .ok (u.put .exec (items ++ u .exec))
  | .name n =>
    match Instruction.ofName? n with
    | .ok (some i) => u.apply maxPoints i
    | .ok none => .ok (u.add .name (.name n))
    | .error e => .error (.machine (.tooManyDigits e))
  | .hole => .error (.machine .notExecutable)
  | value => .ok (u.push value)

/-- The stacks after one more step, and what went wrong in it. -/
def next (maxPoints : Int) (u : Untyped) : Untyped × Option Fault :=
  match u .exec with
  | [] => (u, none)
  | item :: exec =>
    let popped := u.put .exec exec
    match popped.execute maxPoints item with
    | .ok v => (v, none)
    | .error f => (popped, some f)

/-- The stacks after a number of steps, whatever went wrong in them. -/
def after (maxPoints : Int) (u : Untyped) : Nat → Untyped
  | 0 => u
  | n + 1 => ((u.after maxPoints n).next maxPoints).1

/-! ## The same operation on typed stacks -/

section
variable {u : Untyped} {maxPoints : Int} {s t : Stacks}

theorem ok_items (h : ∀ slot, u slot = t.items slot) :
    (Except.ok u : Except Fault Untyped) = .ok t.items := congrArg Except.ok (funext h)

/-- On a stack that holds values of its kind an operation on two of them finds them. -/
theorem binary_of (k : Kind α) {out : Slot} {f : α → α → Option Item} {g : α → α → Item}
    (hf : ∀ a b, (f a b).getD (zeroOf k.slot) = g a b) (xs : List α) :
    u k.slot = xs.map k.item → u.binary k out f = .ok (match xs with
      | b :: a :: rest => (u.put k.slot (rest.map k.item)).add out (g a b)
      | _ => u) := by
  intro hu
  rw [binary, hu]
  match xs with
  | [] | [_] => rfl
  | b :: a :: rest =>
      simp only [List.map_cons, Kind.operand_item, ← hf]
      rfl

/-- On a stack that holds values of its kind an operation on one of them finds it, and it
goes well if its result can be reduced. -/
theorem unary_of (k : Kind α) {out : Slot} {f : α → Option Item} {g : α → Item}
    (hf : ∀ a, reduced out ((f a).getD (zeroOf out)) = .ok (g a)) (xs : List α) :
    u k.slot = xs.map k.item → u.unary k out f = .ok (match xs with
      | a :: rest => (u.put k.slot (rest.map k.item)).add out (g a)
      | [] => u) := by
  intro hu
  rw [unary, hu]
  match xs with
  | [] => rfl
  | a :: rest =>
      simp only [List.map_cons, Kind.operand_item]
      show (reduced out ((f a).getD (zeroOf out))).bind _ = _
      rw [hf]
      rfl

theorem reduced_wrap (n : Int) :
    reduced .integer (.int (Int32.wrap n)) = .ok (.int (Int32.wrap n)) := by
  show Except.ok (Item.int (Int32.wrap (Int32.wrap n))) = _
  rw [Int32.wrap_wrap]

theorem push_items (s : Stacks) (item : Item) :
    Untyped.push s.items item = (s.push item).items := by
  cases item <;> exact funext fun slot => by cases slot <;> rfl

theorem foldl_push_items (s : Stacks) (items : List Item) :
    items.foldl push s.items = (s.pushAll items).items := by
  induction items generalizing s with
  | nil => rfl
  | cons item items ih =>
      rw [List.foldl_cons, push_items, ih]
      rfl

theorem put_move_items (s : Stacks) (m : StackMove) (on : StackName) :
    Untyped.put s.items on.slot (m.apply (s.items on.slot)) = (s.rearrange m.apply on).items := by
  refine funext fun slot => ?_
  cases on <;> cases slot <;> first | rfl | exact m.apply_map _ _

theorem put_depthMove_items (s : Stacks) (m : DepthMove) (depth : Int) (on : StackName) :
    Untyped.put s.items on.slot (m.apply depth (s.items on.slot)) =
      (s.rearrange (m.apply depth) on).items := by
  refine funext fun slot => ?_
  cases on <;> cases slot <;> first | rfl | exact m.apply_map _ _ _

/-- When nothing is left to move once the depth is taken. -/
theorem depth_eq_zero_iff {d : Int} {rest : List Int} (hs : s.integer = d :: rest)
    (on : StackName) : Stacks.depth { s with integer := rest } on = 0 ↔
      (s.items on.slot).isEmpty = true ∨
        (on = .integer && (rest.map Item.int).isEmpty) = true := by
  cases on <;> simp [Stacks.depth, Stacks.items, StackName.slot, hs]

/-- Both machines look for something to move, one of them before it takes the depth and the
other one afterwards. -/
theorem moveAt_items (s : Stacks) (m : DepthMove) (on : StackName) :
    Untyped.moveAt s.items m on = .ok (s.moveAt m on).items := by
  rw [moveAt, Stacks.moveAt]
  cases hs : s.integer with
  | nil =>
      have hints : s.items .integer = [] := by rw [Stacks.items, hs, List.map_nil]
      simp only [hints]
      split <;> rfl
  | cons d rest =>
      have hints : s.items .integer = .int d :: rest.map .int := by
        rw [Stacks.items, hs, List.map_cons]
      have hput : Untyped.put s.items .integer (rest.map .int) =
          Stacks.items { s with integer := rest } :=
        funext fun slot => by cases slot <;> rfl
      have hmoved : Untyped.put (Stacks.items { s with integer := rest }) on.slot
          (m.apply d (Stacks.items { s with integer := rest } on.slot)) =
            (Stacks.rearrange { s with integer := rest } (m.apply d) on).items :=
        put_depthMove_items { s with integer := rest } m d on
      have hempty := depth_eq_zero_iff hs on
      simp only [hints]
      show (if _ then _ else if _ then _ else Except.ok _) = _
      rw [hput, hmoved]
      by_cases h : Stacks.depth { s with integer := rest } on = 0
      · rw [if_pos h]
        rcases hempty.mp h with hon | hlast
        · rw [if_pos hon]
        · rw [if_pos hlast, ite_self]
      · rw [if_neg h, if_neg fun hon => h (hempty.mpr (.inl hon)),
          if_neg fun hlast => h (hempty.mpr (.inr hlast))]

theorem countedLoop_items (s : Stacks) (wrapBody : Item → Item) :
    Untyped.countedLoop s.items wrapBody = .ok (s.countedLoop wrapBody).items := by
  obtain ⟨ints, floats, booleans, exec, code, name, input⟩ := s
  match ints, exec with
  | [], _ | _ :: _, [] => rfl
  | count :: ints, body :: exec =>
      simp only [countedLoop, Stacks.countedLoop, Stacks.items, List.map_cons]
      show (if count ≤ 0 then _ else _) = _
      split
      · rfl
      · exact ok_items fun slot => by cases slot <;> rfl

theorem rangeLoop_items (s : Stacks) :
    Untyped.rangeLoop s.items = .ok s.rangeLoop.items := by
  obtain ⟨ints, floats, booleans, exec, code, name, input⟩ := s
  match ints, exec with
  | [], _ | [_], _ | _ :: _ :: _, [] => rfl
  | stop :: start :: ints, body :: exec => exact ok_items fun slot => by cases slot <;> rfl

theorem branch_items (s : Stacks) :
    Untyped.branch s.items = .ok (s.apply maxPoints .branch).items := by
  obtain ⟨ints, floats, booleans, exec, code, name, input⟩ := s
  match booleans, exec with
  | [], _ | _ :: _, [] | _ :: _, [_] => rfl
  | condition :: booleans, ifTrue :: ifFalse :: exec =>
      exact ok_items fun slot => by cases slot <;> rfl

theorem inputIndex_items (s : Stacks) :
    Untyped.inputIndex s.items = .ok (s.apply maxPoints .inputIndex).items := by
  obtain ⟨ints, floats, booleans, exec, code, name, input⟩ := s
  match ints, input with
  | [], [] | [], _ :: _ | _ :: _, [] => rfl
  | i :: ints, item :: input =>
      rw [inputIndex, Stacks.apply]
      simp only [Stacks.items, List.map_cons, List.length_cons, Nat.add_sub_cancel]
      rw [show Kind.integer.operand (.int i) = .ok i from rfl]
      simp only [bind, Except.bind]
      cases (item :: input).reverse[Stack.clamp i input.length]? with
      | none => rfl
      | some x =>
          refine Eq.trans ?_ (congrArg Except.ok (push_items _ x))
          exact congrArg (fun u => Except.ok (push u x)) (funext fun slot => by cases slot <;> rfl)

/-- On typed stacks an instruction goes well, and leaves the items of what it leaves of
the typed stacks. -/
theorem apply_items (s : Stacks) (i : Instruction) :
    Untyped.apply maxPoints s.items i = .ok (s.apply maxPoints i).items := by
  cases i with
  | integerOp _ | integerCompare _ =>
      rw [apply, binary_of .integer (fun _ _ => rfl) s.integer rfl, Stacks.apply]
      rcases s.integer with _ | ⟨b, _ | ⟨a, rest⟩⟩
      · rfl
      · rfl
      · exact ok_items fun slot => by cases slot <;> rfl
  | floatOp op =>
      have hvalue (a b : Binary64) :
          ((op.value? a b).map Item.float).getD (.float .zero) = .float (op.apply a b) := by
        rw [Option.getD_map, op.value?_getD]
      rw [apply, binary_of .float hvalue s.float rfl, Stacks.apply]
      rcases s.float with _ | ⟨b, _ | ⟨a, rest⟩⟩
      · rfl
      · rfl
      · exact ok_items fun slot => by cases slot <;> rfl
  | floatCompare _ =>
      rw [apply, binary_of .float (fun _ _ => rfl) s.float rfl, Stacks.apply]
      rcases s.float with _ | ⟨b, _ | ⟨a, rest⟩⟩
      · rfl
      · rfl
      · exact ok_items fun slot => by cases slot <;> rfl
  | booleanOp _ =>
      rw [apply, binary_of .boolean (fun _ _ => rfl) s.boolean rfl, Stacks.apply]
      rcases s.boolean with _ | ⟨b, _ | ⟨a, rest⟩⟩
      · rfl
      · rfl
      · exact ok_items fun slot => by cases slot <;> rfl
  | integerAbs | integerNeg =>
      rw [apply, unary_of .integer (fun _ => reduced_wrap _) s.integer rfl, Stacks.apply]
      rcases s.integer with _ | ⟨a, rest⟩
      · rfl
      · exact ok_items fun slot => by cases slot <;> rfl
  | integerFromFloat =>
      have hvalue (x : Binary64) : reduced .integer ((x.truncate?.map Item.int).getD (.int 0)) =
          .ok (.int (Int32.wrap (x.truncate?.getD 0))) := by
        rw [Option.getD_map]
        rfl
      rw [apply, unary_of .float hvalue s.float rfl, Stacks.apply]
      rcases s.float with _ | ⟨a, rest⟩
      · rfl
      · exact ok_items fun slot => by cases slot <;> rfl
  | integerFromBoolean =>
      have hvalue (b : Bool) : reduced .integer (.int (if b then 1 else 0)) =
          .ok (.int (if b then 1 else 0)) := by
        cases b <;> rfl
      rw [apply, unary_of .boolean hvalue s.boolean rfl, Stacks.apply]
      rcases s.boolean with _ | ⟨a, rest⟩
      · rfl
      · exact ok_items fun slot => by cases slot <;> rfl
  | floatFun f =>
      have hvalue (x : Binary64) :
          reduced .float (((f.value? x).map Item.float).getD (.float .zero)) =
            .ok (.float (f.apply x)) := by
        rw [Option.getD_map, f.value?_getD]
        rfl
      rw [apply, unary_of .float hvalue s.float rfl, Stacks.apply]
      rcases s.float with _ | ⟨a, rest⟩
      · rfl
      · exact ok_items fun slot => by cases slot <;> rfl
  | floatFromInteger =>
      have hvalue (n : Int) :
          reduced .float (((Binary64.ofInt? n).map Item.float).getD (.float .zero)) =
            .ok (.float ((Binary64.ofInt? n).getD .zero)) := by
        rw [Option.getD_map]
        rfl
      rw [apply, unary_of .integer hvalue s.integer rfl, Stacks.apply]
      rcases s.integer with _ | ⟨a, rest⟩
      · rfl
      · exact ok_items fun slot => by cases slot <;> rfl
  | floatFromBoolean | booleanNot =>
      rw [apply, unary_of .boolean (fun _ => rfl) s.boolean rfl, Stacks.apply]
      rcases s.boolean with _ | ⟨a, rest⟩
      · rfl
      · exact ok_items fun slot => by cases slot <;> rfl
  | booleanFromInteger =>
      rw [apply, unary_of .integer (fun _ => rfl) s.integer rfl, Stacks.apply]
      rcases s.integer with _ | ⟨a, rest⟩
      · rfl
      · exact ok_items fun slot => by cases slot <;> rfl
  | booleanFromFloat =>
      rw [apply, unary_of .float (fun _ => rfl) s.float rfl, Stacks.apply]
      rcases s.float with _ | ⟨a, rest⟩
      · rfl
      · exact ok_items fun slot => by cases slot <;> rfl
  | constant _ | inputDepth => exact ok_items fun slot => by cases slot <;> rfl
  | stackDepth on =>
      rw [apply, s.length_items]
      exact ok_items fun slot => by cases slot <;> rfl
  | noop => rfl
  | move m on => exact congrArg Except.ok (put_move_items s m on)
  | moveAt m on => exact moveAt_items s m on
  | quote =>
      obtain ⟨ints, floats, booleans, _ | ⟨item, exec⟩, code, name, input⟩ := s
      · rfl
      · exact ok_items fun slot => by cases slot <;> rfl
  | branch => exact branch_items s
  | doRange => exact rangeLoop_items s
  | doTimes => exact countedLoop_items s _
  | doCount => exact countedLoop_items s _
  | inputIndex => exact inputIndex_items s
  | inputAll => exact congrArg Except.ok (foldl_push_items s s.input.reverse)
  | inputAllReversed => exact congrArg Except.ok (foldl_push_items s s.input)
  | inputAt n =>
      have hinput : s.items .input = s.input := rfl
      rw [apply, Stacks.apply, hinput]
      cases s.input.reverse[n]? with
      | none => rfl
      | some item => exact congrArg Except.ok (push_items s item)
  | combinatorK =>
      obtain ⟨ints, floats, booleans, _ | ⟨a, _ | ⟨b, exec⟩⟩, code, name, input⟩ := s
      · rfl
      · rfl
      · exact ok_items fun slot => by cases slot <;> rfl
  | combinatorS =>
      obtain ⟨ints, floats, booleans, _ | ⟨a, _ | ⟨b, _ | ⟨c, exec⟩⟩⟩, code, name, input⟩ := s
      · rfl
      · rfl
      · rfl
      · simp only [apply, Stacks.apply, Stacks.items]
        split
        · exact ok_items fun slot => by cases slot <;> rfl
        · rfl
  | combinatorY =>
      obtain ⟨ints, floats, booleans, _ | ⟨a, exec⟩, code, name, input⟩ := s
      · rfl
      · exact ok_items fun slot => by cases slot <;> rfl

theorem execute_items (s : Stacks) (item : Item) : Untyped.execute maxPoints s.items item =
    ((s.execute maxPoints item).map Stacks.items).mapError Fault.machine := by
  have hpush (item : Item) : (Except.ok (push s.items item) : Except Fault Untyped) =
      .ok (s.push item).items := congrArg Except.ok (push_items s item)
  cases item with
  | list items => exact ok_items fun slot => by cases slot <;> rfl
  | hole => rfl
  | int n => exact hpush (.int n)
  | float x => exact hpush (.float x)
  | bool b => exact hpush (.bool b)
  | name n =>
      rw [execute, Stacks.execute]
      cases Instruction.ofName? n with
      | error e => rfl
      | ok found =>
          cases found with
          | none => exact ok_items fun slot => by cases slot <;> rfl
          | some i => exact apply_items s i

/-- A step on typed stacks goes wrong where the typed machine stops, and nowhere else. -/
theorem next_items (s : Stacks) : Untyped.next maxPoints s.items =
    ((s.next maxPoints).items, (s.nextError? maxPoints).map Fault.machine) := by
  cases hs : s.exec with
  | nil =>
      rw [Stacks.next_of_nil hs, Stacks.nextError?_of_nil hs]
      simp only [next, Stacks.items, hs]
      rfl
  | cons item exec =>
      have hpopped : Untyped.put s.items .exec exec = Stacks.items { s with exec := exec } :=
        funext fun slot => by cases slot <;> rfl
      have hexec : s.items .exec = item :: exec := hs
      rw [next, hexec]
      simp only [hpopped, execute_items]
      cases ht : Stacks.execute maxPoints { s with exec := exec } item with
      | error e =>
          rw [Stacks.next_of_error hs ht, Stacks.nextError?_of_error hs ht]
          rfl
      | ok t =>
          rw [Stacks.next_of_ok hs ht, Stacks.nextError?_of_ok hs ht]
          rfl

theorem after_items (s : Stacks) (n : Nat) :
    Untyped.after maxPoints s.items n = (s.after maxPoints n).items := by
  induction n with
  | zero => rfl
  | succ n ih => rw [after, ih, next_items, Stacks.after]

end

end Untyped

end PushFitness
