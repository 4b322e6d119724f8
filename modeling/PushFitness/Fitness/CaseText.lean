import PushFitness.Fitness.Case
import PushFitness.Log
import PushFitness.Program.Reader

/-!
# Reading fitness cases

The text of a set of cases is a list of lists; the first two items of each inner
list are the input and the expected output, and further items are ignored. The
text is read between two extra brackets, so that it must be one list even where a
program could be a bare sequence.

Cases are read one by one and each is reported as soon as it has been read, so
a faulty case is preceded by the reports of those before it.
-/

namespace PushFitness

/-! ## Literals -/

/-- Why an item is not a literal of a problem. -/
inductive LiteralError
  | notNumeric (item : Item)
  | notInteger (item : Item)
  | notFinite (item : Item)

def LiteralError.message : LiteralError → String
  | notNumeric item => Text.quoted item.text ++ " is not a numeric literal"
  | notInteger item => Text.quoted item.text ++ " is not an integer literal"
  | notFinite item => Text.quoted item.text ++ " is not a finite float literal"

/-- The literal of an item for which a finite double was found, if one was. -/
def finiteLiteral (item : Item) : Option Binary64 → Except LiteralError Scalar
  | some x => .ok (.float x)
  | none => .error (.notFinite item)

/-- The number that an item is for a problem. An integer problem takes integers only;
the other takes both kinds of numbers and makes finite doubles of them. -/
def ProblemType.literal : ProblemType → Item → Except LiteralError Scalar
  | .integer, .int n => .ok (.int n)
  | .integer, .float x => .error (.notInteger (.float x))
  | .float, .int n => finiteLiteral (.int n) (Binary64.ofInt? n)
  | .float, .float x => finiteLiteral (.float x) (if x.isFinite then some x else none)
  | _, item => .error (.notNumeric item)

/-! ## Cases -/

/-- The two parts of a case. -/
inductive CaseField
  | input
  | expected
deriving DecidableEq

def CaseField.text : CaseField → String
  | input => "input"
  | expected => "expected_output"

/-- Why a text is not a set of cases: the text as a whole is unusable, or the case at an
index is. -/
inductive CaseError
  | unbalanced (e : ReadError)
  | tooManyDigits (e : TooManyDigits)
  | notOneList
  | tooFewItems (index : Nat) (item : Item)
  | badLiteral (index : Nat) (item : Item) (field : CaseField) (e : LiteralError)

/-- The three kinds of errors: the form of the text or of a case, a literal of a case, and
a number that is too long to be read. -/
inductive CaseFault
  | form
  | literal (field : CaseField)
  | digits
deriving DecidableEq

namespace CaseError

def fault : CaseError → CaseFault
  | unbalanced _ | notOneList | tooFewItems _ _ => .form
  | badLiteral _ _ field _ => .literal field
  | tooManyDigits _ => .digits

/-- The index of the faulty case, `-1` if the whole text is at fault. -/
def caseIndex : CaseError → Int
  | tooFewItems index _ => index
  | badLiteral index _ _ _ => index
  | _ => -1

/-- The text of the faulty case, or the whole text. -/
def raw (text : String) : CaseError → String
  | tooFewItems _ item => item.text
  | badLiteral _ item _ _ => item.text
  | _ => text

end CaseError

/-- The text between the extra brackets. -/
def bracketed (text : String) : String := "( " ++ text ++ " )"

def CaseError.message (text : String) : CaseError → String
  | unbalanced e => "Fitness cases are not a balanced list: " ++ e.message (bracketed text)
  | tooManyDigits e => e.message
  | notOneList => "Fitness cases must be a single list, got " ++ Text.quoted text
  | tooFewItems index item =>
    "Not enough elements for fitness case #" ++ toString index ++ ": " ++ Text.quoted item.text
  | badLiteral index _ field e =>
    "Invalid " ++ field.text ++ " in fitness case #" ++ toString index ++ ": " ++ e.message

/-- The case that the item at an index denotes. -/
def Case.ofItem (t : ProblemType) (index : Nat) (item : Item) : Except CaseError Case :=
  match item with
  | .list (input :: expected :: _) =>
    match t.literal input with
    | .error e => .error (.badLiteral index item .input e)
    | .ok i =>
      match t.literal expected with
      | .error e => .error (.badLiteral index item .expected e)
      | .ok o => .ok ⟨i, o⟩
  | _ => .error (.tooFewItems index item)

/-- The cases that were read, and the error that ended the reading before its end. -/
structure CaseReading where
  cases : List Case
  error? : Option CaseError

namespace CaseReading

/-- Reads the items from an index on, up to the first faulty one. -/
def ofItems (t : ProblemType) (index : Nat) : List Item → CaseReading
  | [] => ⟨[], none⟩
  | item :: items =>
    match Case.ofItem t index item with
    | .error e => ⟨[], some e⟩
    | .ok c =>
      let later := ofItems t (index + 1) items
      ⟨c :: later.cases, later.error?⟩

/-- The items of the one list that a text must be. -/
def topItems (text : String) : Except CaseError (List Item) :=
  match Program.ofText (bracketed text) with
  | .error (.tooManyDigits e) => .error (.tooManyDigits e)
  | .error e => .error (.unbalanced e)
  | .ok [.list items] => .ok items
  | .ok _ => .error .notOneList

def ofText (t : ProblemType) (text : String) : CaseReading :=
  match topItems text with
  | .error e => ⟨[], some e⟩
  | .ok items => ofItems t 0 items

/-- The cases, if all of them could be read. -/
def result (r : CaseReading) : Except CaseError (List Case) :=
  match r.error? with
  | none => .ok r.cases
  | some e => .error e

def record (index : Nat) (c : Case) : LogRecord :=
  ⟨.info, "push_surrogate.parsing",
    ";; Fitness case #" ++ toString index ++ " input: " ++ c.input.text ++ " output: "
      ++ c.expected.text⟩

/-- One report for each case that was read. -/
def records (r : CaseReading) : List LogRecord := r.cases.mapIdx record

end CaseReading

/-- The cases of a text. -/
def readCases (t : ProblemType) (text : String) : Except CaseError (List Case) :=
  (CaseReading.ofText t text).result

end PushFitness
