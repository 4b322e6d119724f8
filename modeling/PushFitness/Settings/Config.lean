import PushFitness.Fitness.Evaluator
import PushFitness.Settings.Checked

/-!
# The configuration of an experiment

A configuration says what the problem is, how programs are evaluated, how large a
sample a predictor takes, how many predictions run at a time, how samples are
seeded, and what is logged where. Only the cases have no default.
-/

namespace PushFitness

/-- The settings of predictors. -/
structure PredictorConfig where
  sampleSize : Nat
  sampleSize_pos : 0 < sampleSize

/-- Samples of eight. -/
def PredictorConfig.default : PredictorConfig := ⟨8, by decide⟩

structure ExperimentConfig where
  problemType : ProblemType
  testCases : String
  evaluator : EvaluatorConfig
  predictor : PredictorConfig
  maxWorkers : Nat
  seed? : Option Int
  logLevel : String
  logFile? : Option String
  maxWorkers_pos : 0 < maxWorkers

namespace ExperimentConfig

def defaultMaxWorkers : Nat := 4

def defaultLogLevel : String := "INFO"

end ExperimentConfig

/-! ## From tables of settings -/

def EvaluatorConfig.ofTable (t : Table) : Checked EvaluatorConfig :=
  let base := EvaluatorConfig.default
  let limit := t.field "execution_limit" ⟨base.executionLimit, base.executionLimit_pos⟩
    Setting.positive
  let missing := t.field "empty_stack_error" ⟨base.emptyStackError, base.emptyStackError_pos⟩
    Setting.positiveDouble
  let points := t.field "max_points_in_program" ⟨base.maxPoints, base.maxPoints_pos⟩
    Setting.positive
  (limit.both (missing.both points)).map fun (limit, missing, points) =>
    ⟨limit.1, missing.1, points.1, Positive.pos limit, missing.2, Positive.pos points⟩

def PredictorConfig.ofTable (t : Table) : Checked PredictorConfig :=
  let base := PredictorConfig.default
  (t.field "sample_size" ⟨base.sampleSize, base.sampleSize_pos⟩ Setting.positive).map
    fun size => ⟨size.1, Positive.pos size⟩

def ExperimentConfig.ofTable (t : Table) : Checked ExperimentConfig :=
  let problem := t.field "problem_type" .integer fun v =>
    .ofOption (v.text?.bind ProblemType.ofText?)
  let cases := t.required "test_cases" fun v => .ofOption v.text?
  let evaluator := t.field "evaluator" .default (Setting.nested EvaluatorConfig.ofTable)
  let predictor := t.field "predictor" .default (Setting.nested PredictorConfig.ofTable)
  let workers := t.field "max_workers" ⟨defaultMaxWorkers, by decide⟩ Setting.positive
  let seed := t.field "seed" none (Setting.orNull Setting.int?)
  let level := t.field "log_level" defaultLogLevel fun v => .ofOption v.text?
  let file := t.field "log_file" none (Setting.orNull Setting.text?)
  (problem.both (cases.both (evaluator.both (predictor.both (workers.both
    (seed.both (level.both file))))))).map
    fun (problem, cases, evaluator, predictor, workers, seed, level, file) =>
      ⟨problem, cases, evaluator, predictor, workers.1, seed, level, file, Positive.pos workers⟩

end PushFitness
