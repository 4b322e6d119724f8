import PushFitness.Program.Atom
import PushFitness.Program.Token
import PushFitness.Text.Quoted

/-!
# Reading programs

Program text is a sequence of items: a word is an atom, and an opening bracket,
items and the closing bracket of the same style are a list. When the whole text
is one list, that list is the program; otherwise the sequence is.

The reader goes over the tokens once, from left to right, and stops at the first
token it cannot take: a closing bracket that closes nothing or the wrong bracket,
or an integer that is too long. Brackets that are still open at the end are the
last thing that can go wrong, and the innermost one is reported.
-/

namespace PushFitness

/-- Why a text is not a program. -/
inductive ReadError
  | unexpected (b : Bracket)
  | unclosed (b : Bracket)
  | tooManyDigits (e : TooManyDigits)
deriving DecidableEq

/-- A list that has been opened and not closed: its bracket, and the items in front
of the bracket, the last one first. -/
structure OpenList where
  bracket : Bracket
  before : List Item

/-- How far a reading has come: the items of the list it is in, the last one first,
and the lists around it, the innermost one first. -/
structure Reading where
  items : List Item
  openLists : List OpenList

namespace Reading

def start : Reading := ⟨[], []⟩

/-- Takes one token. -/
def step (r : Reading) : Token → Except ReadError Reading
  | .opening b => .ok ⟨[], ⟨b, r.items⟩ :: r.openLists⟩
  | .closing b =>
    match r.openLists with
    | [] => .error (.unexpected b)
    | o :: os =>
      if o.bracket = b then .ok ⟨.list r.items.reverse :: o.before, os⟩
      else .error (.unexpected b)
  | .word cs =>
    match Item.ofWord cs with
    | .ok atom => .ok ⟨atom :: r.items, r.openLists⟩
    | .error e => .error (.tooManyDigits e)

/-- The items that have been read, if no list is open. -/
def finish (r : Reading) : Except ReadError (List Item) :=
  match r.openLists with
  | [] => .ok r.items.reverse
  | o :: _ => .error (.unclosed o.bracket)

end Reading

/-- The items that a sequence of tokens denotes. -/
def readItems (tokens : List Token) : Except ReadError (List Item) :=
  (tokens.foldlM Reading.step Reading.start).bind Reading.finish

/-- A sequence of items as a program: a single list stands for its own items. -/
def Program.ofItems : List Item → Program
  | [.list items] => items
  | items => items

/-- Reads program text. -/
def Program.ofChars (cs : List Char) : Except ReadError Program :=
  (readItems (Token.ofChars cs)).map Program.ofItems

def Program.ofText (text : String) : Except ReadError Program := Program.ofChars text.toList

/-- The text that an error reports as faulty: all of it if its brackets are at fault. A number
that is too long is reported without a text. -/
def ReadError.text? (text : String) : ReadError → Option String
  | unexpected _ | unclosed _ => some text
  | tooManyDigits _ => none

/-- What is said about a text that is not a program. -/
def ReadError.message (text : String) : ReadError → String
  | unexpected b =>
    "Unexpected " ++ Text.quoted (Token.closing b).text ++ " in program text: "
      ++ Text.quoted text
  | unclosed b =>
    "Unclosed " ++ Text.quoted (Token.opening b).text ++ " in program text: "
      ++ Text.quoted text
  | tooManyDigits e => e.message

end PushFitness
