import PushFitness.Predictor.Basic

/-!
# Predictions

A prediction is the average error over the sampled cases, scored in the order of
the sample on the evaluator of the context. The predictions for a population are
independent of each other: every program gets an evaluator of its own, so it does
not matter in which order, or how many at a time, they are made.
-/

namespace PushFitness

/-- The fitness on the cases at indices. Nothing is scored if an index is out of range. -/
def Evaluator.sampleFitness (e : Evaluator) (program : Program) (cases : List Case)
    (indices : List Int) : Evaluated PredictorError Binary64 :=
  match sampledCases cases 0 indices with
  | .error err => ⟨e, [], .error err⟩
  | .ok sample =>
    let evaluated := e.fitness program sample
    ⟨evaluated.evaluator, evaluated.records, evaluated.result.mapError .fitness⟩

/-- An answer or an error, with the contexts as they are afterwards and the reports made
on the way. -/
structure Prediction where
  contexts : List Context
  records : List LogRecord
  result : Except PredictorError Binary64

namespace Predictor

/-- The context of a predictor with its number and the indices, if both are set. -/
def binding? (p : Predictor) (contexts : List Context) : Option (Nat × Context × List Int) := do
  let number ← p.context?
  let context ← contexts[number]?
  let indices ← p.indices?
  return (number, context, indices)

/-- Estimates the fitness of a program. The evaluator of the context is used. -/
def predict (p : Predictor) (contexts : List Context) (program : Program) : Prediction :=
  match p.binding? contexts with
  | none => ⟨contexts, [], .error .unbound⟩
  | some (number, context, indices) =>
    let evaluated := context.evaluator.sampleFitness program context.cases indices
    ⟨contexts.set number { context with evaluator := evaluated.evaluator },
      evaluated.records, evaluated.result⟩

/-- The predictions for several programs, each on a new evaluator, up to the first that
fails. -/
def predictEach (fresh : Evaluator) (cases : List Case) (indices : List Int) :
    List Program → List LogRecord × Except PredictorError (List Binary64)
  | [] => ([], .ok [])
  | program :: programs =>
    let first := fresh.sampleFitness program cases indices
    match first.result with
    | .error e => (first.records, .error e)
    | .ok x =>
      let (later, result) := predictEach fresh cases indices programs
      (first.records ++ later, result.map (x :: ·))

/-- The report with which the predictions for a population start. It is left out if a number
in it has too many digits to be written. -/
def populationRecord? (programs : Nat) (workers : Int) : Option LogRecord :=
  if Text.IsShort programs ∧ Text.IsShort workers then
    some ⟨.debug, "push_surrogate.predictor",
      "Predicting fitness for " ++ toString programs ++ " candidates with up to "
        ++ toString workers ++ " workers"⟩
  else none

/-- Estimates the fitness of every program of a population, with evaluators like
`fresh` and up to `workers` programs at a time. -/
def predictPopulation (p : Predictor) (contexts : List Context) (fresh : Evaluator)
    (workers : Int) (programs : List Program) :
    List LogRecord × Except PredictorError (List Binary64) :=
  if workers < 1 then ([], .error (PredictorError.badWorkerCount workers).raised)
  else
    match p.binding? contexts with
    | none => ([], .error .unbound)
    | some (_, context, indices) =>
      let (records, result) := predictEach fresh context.cases indices programs
      ((populationRecord? programs.length workers).toList ++ records, result)

end Predictor

end PushFitness
