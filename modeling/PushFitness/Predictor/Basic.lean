import PushFitness.Fitness.Context
import PushFitness.Random.Sample
import PushFitness.Settings.Config

/-!
# Fitness predictors

A predictor estimates a fitness from a fixed number of sampled cases. It holds
indices into the cases of a context, and it is bound once it has both a context
and indices. Contexts are shared between predictors, so a predictor holds the
number of its context and not the context itself.

Whether an index fits the cases is looked at when a prediction is made, before any
case is scored. How many indices there are is settled when they are taken.

The message of an error is written before the error is raised. A number in it may have
too many digits for that, and then it is the failure of the writing that is raised.
-/

namespace PushFitness

/-- Why a predictor cannot be made, bound or asked. -/
inductive PredictorError
  | badSampleSize (n : Int)
  | tooFewIndices (expected actual : Nat)
  | notAnIndex (item : Item)
  | noCases
  | unbound
  | outOfRange (index : Int) (position size : Nat)
  | badWorkerCount (n : Int)
  | unwritten
  | fitness (e : FitnessError)

namespace PredictorError

/-- The name of the kind of an item that is no index. -/
def kindName : Item → String
  | .int _ => "int"
  | .float _ => "float"
  | .bool _ => "bool"
  | .name _ => "str"
  | .list _ => "tuple"
  | .hole => "NoneType"

def message : PredictorError → String
  | badSampleSize n => "sample_size must be >= 1, got " ++ toString n
  | tooFewIndices expected actual =>
    "Expected at least " ++ toString expected ++ " sample indices, got " ++ toString actual
  | notAnIndex (.bool b) =>
    "Sample index must be an integer, got " ++ (if b then "True" else "False")
  | notAnIndex item =>
    Text.quoted (kindName item) ++ " object cannot be interpreted as an integer"
  | noCases => "Cannot sample indices from an empty test case set"
  | unbound => "Predictor has no evaluation context and sample indices bound"
  | outOfRange index position size =>
    "Sample index " ++ toString index ++ " at position " ++ toString position
      ++ " is out of range for " ++ toString size ++ " test cases"
  | badWorkerCount n => "max_workers must be >= 1, got " ++ toString n
  | unwritten => Text.unwrittenMessage
  | fitness e => e.message

/-- The numbers in the message. -/
def numbers : PredictorError → List Int
  | badSampleSize n | badWorkerCount n => [n]
  | tooFewIndices expected actual => [expected, actual]
  | outOfRange index position size => [index, position, size]
  | notAnIndex _ | noCases | unbound | unwritten | fitness _ => []

/-- An error whose message can be written. -/
def IsWritable (e : PredictorError) : Prop := ∀ n ∈ e.numbers, Text.IsShort n

instance (e : PredictorError) : Decidable e.IsWritable :=
  inferInstanceAs (Decidable (∀ n ∈ e.numbers, Text.IsShort n))

/-- What is raised for an error: the error itself if its message can be written. -/
def raised (e : PredictorError) : PredictorError := if e.IsWritable then e else .unwritten

/-- Whether the error is about binding and asking predictors, and not about an argument
or an evaluation. -/
def isBinding : PredictorError → Bool
  | tooFewIndices _ _ => true
  | unbound => true
  | outOfRange _ _ _ => true
  | _ => false

end PredictorError

/-! ## Indices -/

/-- Items as indices. Only integers are indices. -/
def indicesOf : (items : List Item) →
    Except PredictorError { is : List Int // is.length = items.length }
  | [] => .ok ⟨[], rfl⟩
  | .int n :: items =>
    match indicesOf items with
    | .ok is => .ok ⟨n :: is.1, by simp [is.2]⟩
    | .error e => .error e
  | item :: _ => .error (.notAnIndex item)

/-- The first `size` items as indices. That there are enough of them is looked at first,
and those behind are not looked at. -/
def takeIndices (size : Nat) (items : List Item) :
    Except PredictorError { is : List Int // is.length = size } :=
  if h : size ≤ items.length then
    match indicesOf (items.take size) with
    | .ok is => .ok ⟨is.1, by rw [is.2, List.length_take]; omega⟩
    | .error e => .error e
  else .error (PredictorError.tooFewIndices size items.length).raised

/-- The cases at indices, which have positions from `position` on. The first index that
is out of range is the one reported. -/
def sampledCases (cases : List Case) : (position : Nat) → List Int →
    Except PredictorError (List Case)
  | _, [] => .ok []
  | position, i :: is =>
    match if i < 0 then none else cases[i.toNat]? with
    | none => .error (PredictorError.outOfRange i position cases.length).raised
    | some c => (sampledCases cases (position + 1) is).map (c :: ·)

/-! ## Predictors -/

/-- A predictor: the size of its samples, the number of its context, and its indices. -/
structure Predictor where
  sampleSize : Nat
  context? : Option Nat
  indices? : Option (List Int)
  sampleSize_pos : 0 < sampleSize
  indices_length : ∀ is ∈ indices?, is.length = sampleSize

namespace Predictor

/-- The size of samples unless another is asked for. -/
def defaultSampleSize : Nat := 8

/-- A predictor for a context and indices, either of which may come later. -/
def new (sampleSize : Int) (context? : Option Nat) (items? : Option (List Item)) :
    Except PredictorError Predictor :=
  if h : 0 < sampleSize.toNat then
    match items? with
    | none => .ok ⟨sampleSize.toNat, context?, none, h, by simp⟩
    | some items =>
      match takeIndices sampleSize.toNat items with
      | .ok is => .ok ⟨sampleSize.toNat, context?, some is.1, h, by simp [is.2]⟩
      | .error e => .error e
  else .error (PredictorError.badSampleSize sampleSize).raised

/-- A predictor with the same indices and the same context. -/
def clone (p : Predictor) : Predictor := p

/-- Replaces the context and the indices together, or neither. -/
def bind (p : Predictor) (context? : Option Nat) (items : List Item) :
    Except PredictorError Predictor :=
  match takeIndices p.sampleSize items with
  | .ok is => .ok { p with
      context? := context?, indices? := some is.1, indices_length := by simp [is.2] }
  | .error e => .error e

def isBound (p : Predictor) : Bool := p.context?.isSome && p.indices?.isSome

/-- The indices behind each other, each with a blank behind it. -/
def text (p : Predictor) : String :=
  "Prediction Indices: [ " ++ String.join ((p.indices?.getD []).map fun i => toString i ++ " ")
    ++ "]"

/-- The text, unless an index in it has too many digits to be written. -/
def text? (p : Predictor) : Option String :=
  if ∀ i ∈ p.indices?.getD [], Text.IsShort i then some p.text else none

/-- Indices between brackets; a single one has a comma behind it. -/
def indicesText : Option (List Int) → String
  | none => "None"
  | some [i] => "(" ++ toString i ++ ",)"
  | some is => "(" ++ ", ".intercalate (is.map toString) ++ ")"

/-- The text that shows the state of a predictor. -/
def description (p : Predictor) : String :=
  "SampledFitnessPredictor(sample_size=" ++ toString p.sampleSize ++ ", sample_indices="
    ++ indicesText p.indices? ++ ", bound=" ++ (if p.isBound then "True" else "False") ++ ")"

/-- The description, unless a number in it has too many digits to be written. -/
def description? (p : Predictor) : Option String :=
  if Text.IsShort p.sampleSize ∧ ∀ i ∈ p.indices?.getD [], Text.IsShort i then
    some p.description
  else none

end Predictor

/-! ## Random indices -/

/-- Indices of cases drawn with replacement; none if a count below one is asked for. -/
def randomIndices (cases count seed : Int) : Except PredictorError (List Nat) :=
  if cases < 1 then .error .noCases
  else .ok (((Twister.ofSeed seed).sample cases.toNat count.toNat).getD [])

/-- A predictor with random indices, bound to the context with a number and cases. -/
def Predictor.random (config : PredictorConfig) (context : Nat) (cases : List Case)
    (seed : Int) : Except PredictorError Predictor :=
  match randomIndices cases.length config.sampleSize seed with
  | .ok is =>
    Predictor.new config.sampleSize (some context) (some (is.map fun (i : Nat) => .int i))
  | .error e => .error e

end PushFitness
