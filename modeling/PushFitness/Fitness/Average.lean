import PushFitness.Binary64.Sum
import PushFitness.Fitness.Case

/-!
# The average of errors

A fitness is an error: the average of the absolute values of the errors on single
cases. It is infinite as soon as one error is.
-/

namespace PushFitness

/-- Why a list of errors has no average. -/
inductive AverageError
  | empty
  | tooLarge
  | sumOverflow
deriving DecidableEq

def AverageError.message : AverageError → String
  | empty => "Cannot aggregate an empty list of errors"
  | tooLarge => "int too large to convert to float"
  | sumOverflow => "intermediate overflow in fsum"

/-- The average of the absolute values of errors. -/
def averageError (errors : List Binary64) : Except AverageError Binary64 :=
  let sizes := errors.map Binary64.abs
  if sizes.isEmpty then .error .empty
  else if sizes.any Binary64.isInfinite then .ok .infinity
  else
    match Binary64.sum? sizes with
    | none => .error .sumOverflow
    | some sum => .ok (sum.div (Binary64.ofInt sizes.length))

/-- The errors as doubles, up to the first infinite one: it settles the average, and no
later integer is looked at. -/
def Scalar.errors : List Scalar → Except AverageError (List Binary64)
  | [] => .ok []
  | .float x :: rest =>
    if x.isInfinite then .ok [x] else (Scalar.errors rest).map (x :: ·)
  | .int n :: rest =>
    match Binary64.ofInt? n with
    | none => .error .tooLarge
    | some x => (Scalar.errors rest).map (x :: ·)

/-- The average of the absolute values of errors of either kind. -/
def averageScalarError (errors : List Scalar) : Except AverageError Binary64 :=
  (Scalar.errors errors).bind averageError

end PushFitness
