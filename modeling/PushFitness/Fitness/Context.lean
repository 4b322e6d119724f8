import PushFitness.Fitness.Average
import PushFitness.Fitness.CaseText
import PushFitness.Fitness.Evaluator

/-!
# Fitness over a set of cases

A context is a set of cases with the evaluator that scores programs on them. The
true fitness of a program is the average error over all cases of the context.

A problem makes contexts from the text of cases. Single cases are scored on an
evaluator of its own, which is built when the first of them is scored and then kept.
-/

namespace PushFitness

/-- Why a program has no fitness on a set of cases. -/
inductive FitnessError
  | evaluation (e : EvaluationError)
  | average (e : AverageError)
deriving DecidableEq

def FitnessError.message : FitnessError → String
  | evaluation e => e.message
  | average e => e.message

/-- The fitness on some cases, scored in order on an evaluator. -/
def Evaluator.fitness (e : Evaluator) (program : Program) (cases : List Case) :
    Evaluated FitnessError Binary64 :=
  let scored := e.scoreAll program cases
  ⟨scored.evaluator, scored.records,
    match scored.result with
    | .error err => .error (.evaluation err)
    | .ok errors => (averageError errors).mapError .average⟩

/-- A set of cases and its evaluator. -/
structure Context where
  cases : List Case
  evaluator : Evaluator

namespace Context

def new (t : ProblemType) (config : EvaluatorConfig) (cases : List Case) : Context :=
  ⟨cases, .new t config⟩

/-- The average error over all cases. -/
def trueFitness (c : Context) (program : Program) : Evaluated FitnessError Binary64 :=
  c.evaluator.fitness program c.cases

end Context

/-- A regression problem: the kind of its numbers, the settings for evaluators, and the
evaluator for single cases once there is one. -/
structure Problem where
  problemType : ProblemType
  config : EvaluatorConfig
  evaluator : Option Evaluator

namespace Problem

def new (t : ProblemType) (config : EvaluatorConfig) : Problem := ⟨t, config, none⟩

def text (p : Problem) : String :=
  "SymbolicRegressionProblem(problem_type=" ++ Text.quoted p.problemType.text ++ ")"

/-- An evaluator with a machine of its own. -/
def newEvaluator (p : Problem) : Evaluator := .new p.problemType p.config

/-- The context for the text of cases, with a new evaluator. -/
def context (p : Problem) (text : String) : Except CaseError Context :=
  (readCases p.problemType text).map fun cases => ⟨cases, p.newEvaluator⟩

/-- The signed error of a program on one case. -/
def scoreOne (p : Problem) (program : Program) (c : Case) :
    Evaluated EvaluationError Binary64 :=
  (p.evaluator.getD p.newEvaluator).score program c

end Problem

end PushFitness
