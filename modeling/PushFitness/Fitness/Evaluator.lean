import PushFitness.Fitness.Case
import PushFitness.Log
import PushFitness.Machine.Run

/-!
# Scoring a program on one case

An evaluator owns a machine. To score a program on a case it empties the machine,
puts the input on the stack of the problem's numbers and on the input stack, runs
the program within the step limit, and reads the result off the top of the stack
of numbers. The score is the difference of the result and the expected output.

Emptying comes first, so nothing of an earlier evaluation reaches a later one; only
the counters of the machine go on counting.
-/

namespace PushFitness

/-- The settings of an evaluator. The limits are positive, and so is the error that
stands for a missing result. -/
structure EvaluatorConfig where
  executionLimit : Nat
  emptyStackError : Binary64
  maxPoints : Nat
  executionLimit_pos : 0 < executionLimit
  emptyStackError_pos : Binary64.zero.lt emptyStackError = true
  maxPoints_pos : 0 < maxPoints

namespace EvaluatorConfig

/-- 150 steps, an infinite error for a missing result, and 100 points. -/
def default : EvaluatorConfig where
  executionLimit := 150
  emptyStackError := .infinity
  maxPoints := 100
  executionLimit_pos := by decide
  emptyStackError_pos := by decide
  maxPoints_pos := by decide

end EvaluatorConfig

/-- Why a case cannot be scored. -/
inductive EvaluationError
  | infiniteInput
  | nanInput
  | tooLarge
  | machine (e : MachineError)
deriving DecidableEq

def EvaluationError.message : EvaluationError → String
  | infiniteInput => "cannot convert float infinity to integer"
  | nanInput => "cannot convert float NaN to integer"
  | tooLarge => "int too large to convert to float"
  | machine e => e.message

/-! ## Conversions -/

/-- A number as a double, if it is in range. -/
def Scalar.toDouble : Scalar → Except EvaluationError Binary64
  | .int n => (Binary64.ofInt? n).elim (.error .tooLarge) .ok
  | .float x => .ok x

/-- A number as the machine's number of a problem: cut towards zero and reduced to 32
bits, or rounded to a double. -/
def ProblemType.loadable : ProblemType → Scalar → Except EvaluationError Scalar
  | .integer, .int n => .ok (.int (Int32.wrap n))
  | .integer, .float x =>
    match x.truncate? with
    | some n => .ok (.int (Int32.wrap n))
    | none => .error (if x.isNaN then .nanInput else .infiniteInput)
  | .float, x => x.toDouble.map .float

/-- The difference as a double. Of two integers it is taken exactly and rounded once. -/
def Scalar.difference : Scalar → Scalar → Except EvaluationError Binary64
  | .int a, .int b => (Scalar.int (a - b)).toDouble
  | a, b =>
    match a.toDouble with
    | .error e => .error e
    | .ok x => b.toDouble.map x.sub

/-! ## Evaluators -/

structure Evaluator where
  problemType : ProblemType
  config : EvaluatorConfig
  machine : Machine

/-- What a run left: the top of the stack of numbers, the steps it took, and whether the
limit cut it off. -/
structure Outcome where
  result? : Option Scalar
  steps : Nat
  exhausted : Bool

/-- An answer or an error, with the evaluator as it is afterwards and the reports made on
the way. -/
structure Evaluated (ε α : Type) where
  evaluator : Evaluator
  records : List LogRecord
  result : Except ε α

namespace Evaluator

def new (t : ProblemType) (config : EvaluatorConfig) : Evaluator :=
  ⟨t, config, .new config.maxPoints⟩

/-- The stack of the problem's numbers, its top first. -/
def primary (e : Evaluator) : List Scalar :=
  match e.problemType with
  | .integer => e.machine.state.integer.map .int
  | .float => e.machine.state.float.map .float

/-- Stacks that hold nothing but one number as the input. -/
def inputStacks : Scalar → Stacks
  | .int n => { Stacks.empty with integer := [n], input := [.int n] }
  | .float x => { Stacks.empty with float := [x], input := [.float x] }

/-- Empties the machine and loads an input. An input that cannot be converted leaves
the machine empty. -/
def load (e : Evaluator) (input : Scalar) : Evaluator × Except EvaluationError Unit :=
  let cleared := { e with machine := e.machine.clear }
  match e.problemType.loadable input with
  | .error err => (cleared, .error err)
  | .ok value =>
    ({ cleared with machine := { cleared.machine with state := inputStacks value } }, .ok ())

/-- The report of a run that the limit cut off. -/
def budgetRecord (limit : Nat) (input : Scalar) : LogRecord :=
  ⟨.debug, "push_surrogate.execution",
    "Step budget of " ++ toString limit ++ " exhausted on input " ++ input.text
      ++ "; using current stack top"⟩

/-- Runs a program on an input. -/
def run (e : Evaluator) (program : Program) (input : Scalar) :
    Evaluated EvaluationError Outcome :=
  match e.load input with
  | (loaded, .error err) => ⟨loaded, [], .error err⟩
  | (loaded, .ok ()) =>
    let limit := e.config.executionLimit
    match loaded.machine.execute program limit with
    | (machine, .error err) => ⟨{ loaded with machine := machine }, [], .error (.machine err)⟩
    | (machine, .ok steps) =>
      let done := { loaded with machine := machine }
      let exhausted := decide (limit ≤ steps) && !machine.state.exec.isEmpty
      ⟨done, if exhausted then [budgetRecord limit input] else [],
        .ok ⟨done.primary.head?, steps, exhausted⟩⟩

/-- The signed error of an outcome: the result less the expected output. The error for
a missing result also stands for a difference that is not a number. -/
def signedError (config : EvaluatorConfig) (o : Outcome) (expected : Scalar) :
    Except EvaluationError Binary64 :=
  match o.result? with
  | none => .ok config.emptyStackError
  | some actual =>
    (actual.difference expected).map fun x => if x.isNaN then config.emptyStackError else x

/-- The signed error of a program on a case. -/
def score (e : Evaluator) (program : Program) (c : Case) :
    Evaluated EvaluationError Binary64 :=
  let ran := e.run program c.input
  ⟨ran.evaluator, ran.records,
    ran.result.bind fun o => signedError e.config o c.expected⟩

/-- The signed errors on several cases, one after the other up to the first that cannot
be scored. -/
def scoreAll (e : Evaluator) (program : Program) :
    List Case → Evaluated EvaluationError (List Binary64)
  | [] => ⟨e, [], .ok []⟩
  | c :: cases =>
    let first := e.score program c
    match first.result with
    | .error err => ⟨first.evaluator, first.records, .error err⟩
    | .ok x =>
      let later := scoreAll first.evaluator program cases
      ⟨later.evaluator, first.records ++ later.records, later.result.map (x :: ·)⟩

end Evaluator

end PushFitness
