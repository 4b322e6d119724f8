import PushFitness.Text.Blank
import PushFitness.Text.Digit

/-!
# Integer numerals

A numeral is an optional sign and digits of any script. Two forms are read: the
bare one of program text, and the loose one of settings, where blanks may stand
around the numeral and a single underscore between two digits. More than 4300
digits are refused in both, and are not written either.
-/

namespace PushFitness.Text

/-- The most digits that are read as an integer, or written for one. -/
def maxIntegerDigits : Nat := 4300

/-- Whether a text starts with a minus sign, and the text without its sign. -/
def takeSign : List Char → Bool × List Char
  | '-' :: cs => (true, cs)
  | '+' :: cs => (false, cs)
  | cs => (false, cs)

/-- The integer with a sign and digits. -/
def signedValue (negative : Bool) (digits : List Nat) : Int :=
  if negative then -(ofDigits digits : Int) else ofDigits digits

/-- The characters of an integer: a minus sign if it is negative, then its digits. -/
def integerChars (n : Int) : List Char :=
  if n < 0 then '-' :: Nat.toDigits 10 n.natAbs else Nat.toDigits 10 n.natAbs

/-- An integer that does not have too many digits. Its sign is none of them. -/
def IsShort (n : Int) : Prop := (Nat.toDigits 10 n.natAbs).length ≤ maxIntegerDigits

instance (n : Int) : Decidable (IsShort n) := inferInstanceAs (Decidable (_ ≤ _))

/-- A number in digits, unless it has too many of them. -/
def writtenNumber? (n : Nat) : Option String :=
  if IsShort n then some (toString n) else none

/-- The message about a number that has too many digits to be written. -/
def unwrittenMessage : String :=
  "Exceeds the limit (" ++ toString maxIntegerDigits
    ++ " digits) for integer string conversion; use sys.set_int_max_str_digits() to increase the limit"

/-- The digit values of a text in which a single underscore may stand between two
digits. -/
def separatedDigits? : List Char → Option (List Nat)
  | [] => none
  | [c] => (digitValue? c).map ([·])
  | c :: '_' :: cs => do return (← digitValue? c) :: (← separatedDigits? cs)
  | c :: cs => do return (← digitValue? c) :: (← separatedDigits? cs)

/-- An integer written loosely, as in a setting. -/
def looseInteger? (cs : List Char) : Option Int := do
  let (negative, body) := takeSign (strip isMargin cs)
  let digits ← separatedDigits? body
  if digits.length ≤ maxIntegerDigits then some (signedValue negative digits) else none

end PushFitness.Text
