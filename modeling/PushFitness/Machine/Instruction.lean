import PushFitness.Machine.Stacks
import PushFitness.Program.Atom

/-!
# Instructions and their names

An instruction is a name that the machine knows. Most names stand in a fixed table,
a stack and an operation joined by a point; in addition `input.in` followed by a
number names the instruction that fetches the input with that number.
-/

namespace PushFitness

/-- Operations that take two integers to one. -/
inductive IntegerOp
  | add
  | sub
  | mul
  | div
  | mod
  | min
  | max
deriving DecidableEq

/-- Operations that take two doubles to one. -/
inductive FloatOp
  | add
  | sub
  | mul
  | div
  | mod
  | min
  | max
deriving DecidableEq

/-- Functions of one double. -/
inductive FloatFun
  | abs
  | neg
  | sin
  | cos
  | tan
  | exp
  | ln
deriving DecidableEq

inductive Comparison
  | eq
  | lt
  | gt
deriving DecidableEq

/-- Operations that take two truth values to one. -/
inductive BooleanOp
  | eq
  | and
  | or
  | xor
deriving DecidableEq

/-- Moves that rearrange one stack and take nothing from another. -/
inductive StackMove
  | pop
  | dup
  | swap
  | rot
  | flush
deriving DecidableEq

/-- Moves that take a depth from the integer stack. -/
inductive DepthMove
  | yank
  | yankDup
  | shove
deriving DecidableEq

/-- What a name can tell the machine to do. -/
inductive Instruction
  | integerOp (op : IntegerOp)
  | integerAbs
  | integerNeg
  | integerCompare (c : Comparison)
  | integerFromFloat
  | integerFromBoolean
  | floatOp (op : FloatOp)
  | floatFun (f : FloatFun)
  | floatCompare (c : Comparison)
  | floatFromInteger
  | floatFromBoolean
  | booleanOp (op : BooleanOp)
  | booleanNot
  | booleanFromInteger
  | booleanFromFloat
  | constant (b : Bool)
  | move (m : StackMove) (on : StackName)
  | moveAt (m : DepthMove) (on : StackName)
  | stackDepth (on : StackName)
  | noop
  | quote
  | branch
  | combinatorK
  | combinatorS
  | combinatorY
  | doRange
  | doTimes
  | doCount
  | inputIndex
  | inputAll
  | inputAllReversed
  | inputDepth
  | inputAt (n : Nat)
deriving DecidableEq

namespace Instruction

/-- The instructions that every rearrangeable stack has, by the part of the name behind
the point. -/
def stackTable (on : StackName) : List (String × Instruction) := [
  ("pop", .move .pop on), ("dup", .move .dup on), ("swap", .move .swap on),
  ("rot", .move .rot on), ("flush", .move .flush on), ("stackdepth", .stackDepth on),
  ("yank", .moveAt .yank on), ("yankdup", .moveAt .yankDup on),
  ("shove", .moveAt .shove on)]

/-- The instructions with fixed names. -/
def table : List (String × Instruction) :=
  [("integer.+", .integerOp .add), ("integer.-", .integerOp .sub),
   ("integer.*", .integerOp .mul), ("integer./", .integerOp .div),
   ("integer.%", .integerOp .mod), ("integer.min", .integerOp .min),
   ("integer.max", .integerOp .max), ("integer.abs", .integerAbs),
   ("integer.neg", .integerNeg), ("integer.=", .integerCompare .eq),
   ("integer.<", .integerCompare .lt), ("integer.>", .integerCompare .gt),
   ("integer.fromfloat", .integerFromFloat), ("integer.fromboolean", .integerFromBoolean),
   ("float.+", .floatOp .add), ("float.-", .floatOp .sub), ("float.*", .floatOp .mul),
   ("float./", .floatOp .div), ("float.%", .floatOp .mod), ("float.min", .floatOp .min),
   ("float.max", .floatOp .max), ("float.abs", .floatFun .abs), ("float.neg", .floatFun .neg),
   ("float.sin", .floatFun .sin), ("float.cos", .floatFun .cos), ("float.tan", .floatFun .tan),
   ("float.exp", .floatFun .exp), ("float.ln", .floatFun .ln),
   ("float.=", .floatCompare .eq), ("float.<", .floatCompare .lt),
   ("float.>", .floatCompare .gt), ("float.frominteger", .floatFromInteger),
   ("float.fromboolean", .floatFromBoolean), ("boolean.=", .booleanOp .eq),
   ("boolean.not", .booleanNot), ("boolean.and", .booleanOp .and),
   ("boolean.or", .booleanOp .or), ("boolean.xor", .booleanOp .xor),
   ("boolean.frominteger", .booleanFromInteger), ("boolean.fromfloat", .booleanFromFloat),
   ("true", .constant true), ("false", .constant false),
   ("exec.noop", .noop), ("code.noop", .noop), ("code.quote", .quote),
   ("exec.if", .branch), ("exec.k", .combinatorK), ("exec.s", .combinatorS),
   ("exec.y", .combinatorY), ("exec.do*range", .doRange), ("exec.do*times", .doTimes),
   ("exec.do*count", .doCount), ("input.index", .inputIndex), ("input.inall", .inputAll),
   ("input.inallrev", .inputAllReversed), ("input.stackdepth", .inputDepth)]
  ++ StackName.all.flatMap fun on =>
    (stackTable on).map fun (suffix, i) => (on.text ++ "." ++ suffix, i)

/-- The fixed names in ascending order. -/
def names : List String := (table.map (·.1)).mergeSort

/-- The digits behind `input.in`, if that is how a name starts and the rest are digits. -/
def inputDigits? (name : List Char) : Option (List Nat) :=
  match name with
  | 'i' :: 'n' :: 'p' :: 'u' :: 't' :: '.' :: 'i' :: 'n' :: d :: ds =>
    Text.digitValues? (d :: ds)
  | _ => none

/-- The instruction with a name, if there is one. The number of an input has the same
limit on its digits as an integer. -/
def ofName? (name : String) : Except TooManyDigits (Option Instruction) :=
  match table.lookup name with
  | some i => .ok (some i)
  | none =>
    match inputDigits? name.toList with
    | none => .ok none
    | some digits =>
      if digits.length ≤ Text.maxIntegerDigits then .ok (some (.inputAt (Text.ofDigits digits)))
      else .error ⟨digits.length⟩

end Instruction

end PushFitness
