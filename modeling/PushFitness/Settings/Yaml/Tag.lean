import PushFitness.Settings.Yaml.Character
import PushFitness.Settings.Yaml.Timestamp
import PushFitness.Text.Blank
import PushFitness.Text.Numeral

/-!
# Kinds of values

The kind of a value is given by its tag. A plain scalar without a tag has the kind that
it is spelled like, and is a text if it is spelled like nothing else. Underscores may
stand between the digits of numbers. Integers that start with a zero are octal, `0x`
and `0b` start hexadecimal and binary ones, and with colons between its digits a number
is in base sixty. A double needs a point, and a sign in its exponent.

Two kinds are for keys only: `<<` takes over the entries of another table, and `=` marks
what a table counts as where a scalar is asked for.
-/

namespace PushFitness.Yaml

/-- The kinds of values, those that no value has included. -/
inductive Tag
  | null
  | bool
  | int
  | float
  | binary
  | timestamp
  | orderedTable
  | pairs
  | keySet
  | text
  | list
  | table
  | merge
  | value
  | unknown
deriving DecidableEq

namespace Tag

/-- The text that the full names of known kinds start with. -/
def standardStem : List Char := "tag:yaml.org,2002:".toList

/-- The kinds with a name of their own. -/
def standard : List (String × Tag) := [
  ("null", null), ("bool", bool), ("int", int), ("float", float), ("binary", binary),
  ("timestamp", timestamp), ("omap", orderedTable), ("pairs", pairs), ("set", keySet),
  ("str", text), ("seq", list), ("map", table), ("merge", merge), ("value", value)]

/-- The kind with a full name. -/
def ofName (name : List Char) : Tag :=
  if standardStem.isPrefixOf name then
    (standard.lookup (String.ofList (name.drop standardStem.length))).getD unknown
  else unknown

/-! ## Spellings -/

def nulls : List String := ["", "~", "null", "Null", "NULL"]

def truths : List String := ["yes", "Yes", "YES", "true", "True", "TRUE", "on", "On", "ON"]

def falsehoods : List String := ["no", "No", "NO", "false", "False", "FALSE", "off", "Off", "OFF"]

def infinities : List String := [".inf", ".Inf", ".INF"]

def notNumbers : List String := [".nan", ".NaN", ".NAN"]

/-- Whether a text has characters and all of them are of a class. -/
def nonEmptyAll (class? : Char → Bool) (cs : List Char) : Bool := !cs.isEmpty && cs.all class?

def isDigitOrLine (c : Char) : Bool := c.isDigit || c = '_'

/-- Whether a text starts with a digit. -/
def startsWithDigit (cs : List Char) : Bool := (cs.head?.map Char.isDigit).getD false

/-- Whether a text is a digit of base sixty: one or two decimal digits. -/
def isSixtieth : List Char → Bool
  | [c] => c.isDigit
  | [a, b] => '0' ≤ a && a ≤ '5' && b.isDigit
  | _ => false

/-- Whether colons separate digits of base sixty from a whole number in front of them. -/
def isSexagesimal (startsWhole : Char → Bool) (cs : List Char) : Bool :=
  match Text.pieces ':' cs with
  | (c :: whole) :: digit :: digits =>
    startsWhole c && whole.all isDigitOrLine && (digit :: digits).all isSixtieth
  | _ => false

/-- Whether a text without a sign is spelled like an integer. -/
def isInteger (cs : List Char) : Bool :=
  let isBetween (last : Char) (c : Char) : Bool := ('0' ≤ c && c ≤ last) || c = '_'
  match cs with
  | ['0'] => true
  | '0' :: 'b' :: digits => nonEmptyAll (isBetween '1') digits
  | '0' :: 'x' :: digits => nonEmptyAll (fun c => (hexValue? c).isSome || c = '_') digits
  | '0' :: digits => nonEmptyAll (isBetween '7') digits
  | _ =>
    (startsWithDigit cs && cs.all isDigitOrLine)
      || isSexagesimal (fun c => '1' ≤ c && c ≤ '9') cs

/-- Whether the characters behind a mantissa are an exponent with a sign, or nothing. -/
def isExponent : List Char → Bool
  | [] => true
  | e :: sign :: digits =>
    (e = 'e' || e = 'E') && (sign = '+' || sign = '-') && nonEmptyAll Char.isDigit digits
  | _ => false

/-- Whether a text without its sign is spelled like a double: digits, a point and digits, of
which only those behind the point may be missing unless there is no sign at all; or a
number in base sixty with a point. -/
def isDouble (hasSign : Bool) (cs : List Char) : Bool :=
  let whole := cs.takeWhile (· ≠ '.')
  match cs.dropWhile (· ≠ '.') with
  | [] => false
  | _ :: behind =>
    let fraction := behind.takeWhile isDigitOrLine
    let exponent := behind.dropWhile isDigitOrLine
    if whole.isEmpty then !hasSign && startsWithDigit fraction && isExponent exponent
    else if whole.all isDigitOrLine then startsWithDigit whole && isExponent exponent
    else isSexagesimal Char.isDigit whole && exponent.isEmpty

/-- The kind of a plain scalar. -/
def ofPlain (cs : List Char) : Tag :=
  let s := String.ofList cs
  let (_, body) := Text.takeSign cs
  if s ∈ nulls then null
  else if s ∈ truths || s ∈ falsehoods then bool
  else if isDouble (body.length < cs.length) body || String.ofList body ∈ infinities
      || s ∈ notNumbers then float
  else if isInteger body then int
  else if s = "<<" then merge
  else if Timestamp.isPlain cs then timestamp
  else if s = "=" then value
  else text

end Tag

end PushFitness.Yaml
