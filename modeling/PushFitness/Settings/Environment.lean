import PushFitness.Settings.Config

/-!
# Overrides from the environment

Five fields of a configuration can be set by environment variables. A variable
counts only if the field still has its default and the text of the variable is
acceptable for it; everything else is ignored, and no other field is touched.
-/

namespace PushFitness

/-- The variables of an environment. -/
abbrev Environment := List (String × String)

/-- The variables that count. -/
def Environment.names : List String := [
  "PUSH_SURROGATE_LOG_LEVEL", "PUSH_SURROGATE_MAX_WORKERS", "PUSH_SURROGATE_SEED",
  "PUSH_SURROGATE_EXECUTION_LIMIT", "PUSH_SURROGATE_SAMPLE_SIZE"]

/-- A number of at least one in a variable. -/
def positiveOfText? (s : String) : Option Positive :=
  match Text.looseInteger? s.toList with
  | some n => if h : 0 < n.toNat then some ⟨n.toNat, h⟩ else none
  | none => none

/-- The fields that an environment overrides. -/
structure Overrides where
  logLevel? : Option String
  maxWorkers? : Option Positive
  seed? : Option Int
  executionLimit? : Option Positive
  sampleSize? : Option Positive

namespace Overrides

/-- The value of a variable if the field it belongs to has its default. -/
def textFor? (env : Environment) (name : String) (isDefault : Bool) : Option String :=
  if isDefault then env.lookup name else none

/-- What an environment overrides in a configuration. -/
def ofEnvironment (env : Environment) (c : ExperimentConfig) : Overrides where
  logLevel? := textFor? env "PUSH_SURROGATE_LOG_LEVEL"
    (c.logLevel = ExperimentConfig.defaultLogLevel)
  maxWorkers? := (textFor? env "PUSH_SURROGATE_MAX_WORKERS"
    (c.maxWorkers = ExperimentConfig.defaultMaxWorkers)).bind positiveOfText?
  seed? := (textFor? env "PUSH_SURROGATE_SEED" c.seed?.isNone).bind fun s =>
    Text.looseInteger? s.toList
  executionLimit? := (textFor? env "PUSH_SURROGATE_EXECUTION_LIMIT"
    (c.evaluator.executionLimit = EvaluatorConfig.default.executionLimit)).bind positiveOfText?
  sampleSize? := (textFor? env "PUSH_SURROGATE_SAMPLE_SIZE"
    (c.predictor.sampleSize = PredictorConfig.default.sampleSize)).bind positiveOfText?

/-- Whether nothing is overridden. -/
def isEmpty (o : Overrides) : Bool :=
  o.logLevel?.isNone && o.maxWorkers?.isNone && o.seed?.isNone && o.executionLimit?.isNone
    && o.sampleSize?.isNone

end Overrides

/-- The configuration with a limit on steps. -/
def EvaluatorConfig.withLimit (c : EvaluatorConfig) (limit : Positive) : EvaluatorConfig :=
  { c with executionLimit := limit.1, executionLimit_pos := limit.pos }

namespace ExperimentConfig

/-- A configuration with the overridden fields replaced. -/
def override (c : ExperimentConfig) (o : Overrides) : ExperimentConfig :=
  let workers := o.maxWorkers?.getD ⟨c.maxWorkers, c.maxWorkers_pos⟩
  { c with
    logLevel := o.logLevel?.getD c.logLevel
    maxWorkers := workers.1
    maxWorkers_pos := workers.pos
    seed? := o.seed?.or c.seed?
    evaluator := (o.executionLimit?.map c.evaluator.withLimit).getD c.evaluator
    predictor := (o.sampleSize?.map fun n => ⟨n.1, n.pos⟩).getD c.predictor }

/-- A configuration as an environment changes it. -/
def inEnvironment (env : Environment) (c : ExperimentConfig) : ExperimentConfig :=
  c.override (.ofEnvironment env c)

end ExperimentConfig

end PushFitness
