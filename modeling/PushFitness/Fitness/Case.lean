import PushFitness.Program.Printer
import PushFitness.Text.Quoted

/-!
# Fitness cases

A problem is about integers or about doubles. A case is an input and the output
that is expected for it. Either may be of the other kind of number than the
problem; it is converted where it is used.
-/

namespace PushFitness

/-- The kind of number that a problem is about. -/
inductive ProblemType
  | integer
  | float
deriving DecidableEq

namespace ProblemType

def text : ProblemType → String
  | integer => "integer"
  | float => "float"

def ofText? : String → Option ProblemType
  | "integer" => some integer
  | "float" => some float
  | _ => none

/-- What is said about a text that names no kind of problem. -/
def unknownMessage (text : String) : String :=
  Text.quoted text ++ " is not a valid ProblemType"

end ProblemType

/-- A number of either kind. -/
inductive Scalar
  | int (n : Int)
  | float (x : Binary64)
deriving DecidableEq

namespace Scalar

def toItem : Scalar → Item
  | int n => .int n
  | float x => .float x

def text (s : Scalar) : String := s.toItem.text

end Scalar

/-- A fitness case. -/
structure Case where
  input : Scalar
  expected : Scalar
deriving DecidableEq

/-- Why there is no case at an index: none stands there, or the index is beyond what an
index can be. -/
inductive CaseIndexError
  | outOfRange
  | tooLarge
deriving DecidableEq

def CaseIndexError.message : CaseIndexError → String
  | outOfRange => "tuple index out of range"
  | tooLarge => "cannot fit 'int' into an index-sized integer"

/-- The number of indices of each sign. An index is a number of 64 bits with a sign. -/
def indexBound : Int := 0x8000000000000000

/-- The case at an index, negative ones counting from the end. -/
def caseAt (cases : List Case) (index : Int) : Except CaseIndexError Case :=
  if index < -indexBound || indexBound ≤ index then .error .tooLarge
  else
    let i := if index < 0 then index + cases.length else index
    match if i < 0 then none else cases[i.toNat]? with
    | some c => .ok c
    | none => .error .outOfRange

end PushFitness
