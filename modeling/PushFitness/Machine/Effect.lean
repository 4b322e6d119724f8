import PushFitness.Binary64.Elementary
import PushFitness.Machine.Instruction

/-!
# What instructions do

An instruction takes its arguments from the tops of stacks and pushes its result. If
an argument is missing it does nothing at all. No instruction fails: integer
results are reduced to 32 bits, a division by zero leaves zero, and a function of
doubles that has no value leaves zero as well.
-/

namespace PushFitness

namespace IntegerOp

/-- The result for a left and a right operand. -/
def apply (a b : Int) : IntegerOp → Int
  | add => Int32.wrap (a + b)
  | sub => Int32.wrap (a - b)
  | mul => Int32.wrap (a * b)
  | div => Int32.wrap (Int32.quotient a b)
  | mod => Int32.remainder a b
  | min => if b < a then b else a
  | max => if a < b then b else a

end IntegerOp

namespace FloatOp

/-- The result for a left and a right operand. -/
def apply (a b : Binary64) : FloatOp → Binary64
  | add => a.add b
  | sub => a.sub b
  | mul => a.mul b
  | div => if b.isZero then .zero else a.div b
  | mod => if b.isZero || a.isInfinite && !b.isNaN then .zero else a.remainder b
  | min => a.min b
  | max => a.max b

end FloatOp

namespace FloatFun

def apply (x : Binary64) : FloatFun → Binary64
  | abs => x.abs
  | neg => x.neg
  | sin => x.sin?.getD .zero
  | cos => x.cos?.getD .zero
  | tan => x.tan?.getD .zero
  | exp => x.exp?.getD .zero
  | ln => x.ln?.getD .zero

end FloatFun

namespace Comparison

def integers (a b : Int) : Comparison → Bool
  | eq => a = b
  | lt => a < b
  | gt => b < a

def floats (a b : Binary64) : Comparison → Bool
  | eq => a.eq b
  | lt => a.lt b
  | gt => b.lt a

end Comparison

namespace BooleanOp

def apply (a b : Bool) : BooleanOp → Bool
  | eq => a == b
  | and => a && b
  | or => a || b
  | xor => a != b

end BooleanOp

namespace StackMove

def apply {α : Type} : StackMove → List α → List α
  | pop => Stack.pop
  | dup => Stack.dup
  | swap => Stack.swap
  | rot => Stack.rot
  | flush => fun _ => []

end StackMove

namespace DepthMove

def apply {α : Type} (depth : Int) : DepthMove → List α → List α
  | yank => Stack.yank depth
  | yankDup => Stack.yankDup depth
  | shove => Stack.shove depth

end DepthMove

namespace Stacks

/-- Applies a move with the depth on top of the integer stack. The depth is taken only
if an item is left to move. -/
def moveAt (s : Stacks) (m : DepthMove) (on : StackName) : Stacks :=
  match s.integer with
  | [] => s
  | d :: rest =>
    let t := { s with integer := rest }
    if t.depth on = 0 then s else t.rearrange (m.apply d) on

/-- A loop from an index to a last one as a list that runs it. -/
def rangeItem (first last : Int) (body : Item) : Item :=
  .list [.int first, .int last, .name "exec.do*range", body]

/-- A loop body that first drops the index. -/
def withoutIndex : Item → Item
  | .list items => .list (.name "integer.pop" :: items)
  | item => .list [.name "integer.pop", item]

/-- Turns a count on the integer stack and a body on the exec stack into a loop over
the indices below the count. -/
def countedLoop (s : Stacks) (wrapBody : Item → Item) : Stacks :=
  match s.integer, s.exec with
  | count :: ints, body :: exec =>
    if count ≤ 0 then s
    else { s with integer := ints, exec := rangeItem 0 (count - 1) (wrapBody body) :: exec }
  | _, _ => s

/-- Runs the body now with the first index, and puts the loop over the other indices
behind it. -/
def rangeLoop (s : Stacks) : Stacks :=
  match s.integer, s.exec with
  | stop :: start :: ints, body :: exec =>
    let following := if start < stop then start + 1 else start - 1
    let later := if start = stop then exec else rangeItem following stop body :: exec
    { s with integer := start :: ints, exec := body :: later }
  | _, _ => s

/-- Applies an instruction. A list that the S combinator builds may have at most
`maxPoints` points; a larger one is left out. -/
def apply (maxPoints : Int) (s : Stacks) : Instruction → Stacks
  | .integerOp op =>
    match s.integer with
    | b :: a :: rest => { s with integer := op.apply a b :: rest }
    | _ => s
  | .integerAbs =>
    match s.integer with
    | a :: rest => { s with integer := Int32.wrap a.natAbs :: rest }
    | [] => s
  | .integerNeg =>
    match s.integer with
    | a :: rest => { s with integer := Int32.wrap (-a) :: rest }
    | [] => s
  | .integerCompare c =>
    match s.integer with
    | b :: a :: rest => { s with integer := rest, boolean := c.integers a b :: s.boolean }
    | _ => s
  | .integerFromFloat =>
    match s.float with
    | x :: rest =>
      { s with float := rest, integer := Int32.wrap (x.truncate?.getD 0) :: s.integer }
    | [] => s
  | .integerFromBoolean =>
    match s.boolean with
    | b :: rest => { s with boolean := rest, integer := (if b then 1 else 0) :: s.integer }
    | [] => s
  | .floatOp op =>
    match s.float with
    | b :: a :: rest => { s with float := op.apply a b :: rest }
    | _ => s
  | .floatFun f =>
    match s.float with
    | x :: rest => { s with float := f.apply x :: rest }
    | [] => s
  | .floatCompare c =>
    match s.float with
    | b :: a :: rest => { s with float := rest, boolean := c.floats a b :: s.boolean }
    | _ => s
  | .floatFromInteger =>
    match s.integer with
    | a :: rest =>
      { s with integer := rest, float := (Binary64.ofInt? a).getD .zero :: s.float }
    | [] => s
  | .floatFromBoolean =>
    match s.boolean with
    | b :: rest =>
      { s with boolean := rest, float := (if b then .one else .zero) :: s.float }
    | [] => s
  | .booleanOp op =>
    match s.boolean with
    | b :: a :: rest => { s with boolean := op.apply a b :: rest }
    | _ => s
  | .booleanNot =>
    match s.boolean with
    | b :: rest => { s with boolean := (!b) :: rest }
    | [] => s
  | .booleanFromInteger =>
    match s.integer with
    | a :: rest => { s with integer := rest, boolean := (a != 0) :: s.boolean }
    | [] => s
  | .booleanFromFloat =>
    match s.float with
    | x :: rest => { s with float := rest, boolean := (!x.isZero) :: s.boolean }
    | [] => s
  | .constant b => { s with boolean := b :: s.boolean }
  | .move m on => s.rearrange m.apply on
  | .moveAt m on => s.moveAt m on
  | .stackDepth on => { s with integer := s.depth on :: s.integer }
  | .noop => s
  | .quote =>
    match s.exec with
    | item :: exec => { s with exec := exec, code := item :: s.code }
    | [] => s
  | .branch =>
    match s.boolean, s.exec with
    | condition :: booleans, ifTrue :: ifFalse :: exec =>
      { s with boolean := booleans, exec := (if condition then ifTrue else ifFalse) :: exec }
    | _, _ => s
  | .combinatorK =>
    match s.exec with
    | a :: _ :: exec => { s with exec := a :: exec }
    | _ => s
  | .combinatorS =>
    match s.exec with
    | a :: b :: c :: exec =>
      if (Item.list [b, c]).size ≤ maxPoints then
        { s with exec := a :: c :: .list [b, c] :: exec }
      else s
    | _ => s
  | .combinatorY =>
    match s.exec with
    | a :: exec => { s with exec := a :: .list [.name "exec.y", a] :: exec }
    | [] => s
  | .doRange => s.rangeLoop
  | .doTimes => s.countedLoop withoutIndex
  | .doCount => s.countedLoop id
  | .inputIndex =>
    match s.integer, s.input with
    | _, [] => s
    | [], _ => s
    | i :: ints, inputs =>
      match inputs.reverse[Stack.clamp i (inputs.length - 1)]? with
      | some item => { s with integer := ints }.push item
      | none => s
  | .inputAll => s.pushAll s.input.reverse
  | .inputAllReversed => s.pushAll s.input
  | .inputDepth => { s with integer := s.input.length :: s.integer }
  | .inputAt n =>
    match s.input.reverse[n]? with
    | some item => s.push item
    | none => s

end Stacks

end PushFitness
