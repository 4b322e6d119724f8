import PushFitness.Predictor.Prediction

/-!
# Sessions with several predictors

A session has a fixed list of contexts and any number of predictors under names.
Every operation either answers and makes its one change, or fails and leaves all
predictors as they were.
-/

namespace PushFitness

structure Session where
  contexts : List Context
  predictors : List (String × Predictor)

namespace Session

/-- What can be asked of a session. -/
inductive Operation
  | new (name : String) (context? : Option Nat) (items? : Option (List Item))
      (sampleSize : Int)
  | create (name : String) (context : Nat) (config : PredictorConfig) (seed : Int)
  | clone (source name : String)
  | bind (name : String) (context? : Option Nat) (items : List Item)
  | predict (name : String) (program : Program)
  | population (name : String) (programs : List Program) (fresh : Evaluator) (workers : Int)

/-- What a session answers. -/
inductive Answer
  | missing
  | done
  | fitness (x : Binary64)
  | population (xs : List Binary64)
  | failed (e : PredictorError)

def find? (s : Session) (name : String) : Option Predictor := s.predictors.lookup name

/-- Puts a predictor under a name, in place of one that has it. -/
def put (s : Session) (name : String) (p : Predictor) : Session :=
  { s with predictors := (name, p) :: s.predictors.filter (·.1 ≠ name) }

/-- Keeps a predictor that could be made. -/
def putResult (s : Session) (name : String) : Except PredictorError Predictor → Session × Answer
  | .ok p => (s.put name p, .done)
  | .error e => (s, .failed e)

def perform (s : Session) : Operation → Session × Answer
  | .new name context? items? sampleSize =>
    s.putResult name (Predictor.new sampleSize context? items?)
  | .create name context config seed =>
    let cases := (s.contexts[context]?.map (·.cases)).getD []
    s.putResult name (Predictor.random config context cases seed)
  | .clone source name =>
    match s.find? source with
    | none => (s, .missing)
    | some p => (s.put name p.clone, .done)
  | .bind name context? items =>
    match s.find? name with
    | none => (s, .missing)
    | some p => s.putResult name (p.bind context? items)
  | .predict name program =>
    match s.find? name with
    | none => (s, .missing)
    | some p =>
      let prediction := p.predict s.contexts program
      let after := { s with contexts := prediction.contexts }
      match prediction.result with
      | .ok x => (after, .fitness x)
      | .error e => (after, .failed e)
  | .population name programs fresh workers =>
    match s.find? name with
    | none => (s, .missing)
    | some p =>
      match p.predictPopulation s.contexts fresh workers programs with
      | (_, .ok xs) => (s, .population xs)
      | (_, .error e) => (s, .failed e)

end Session

end PushFitness
