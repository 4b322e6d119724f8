import PushFitness.Binary64.Decimal
import PushFitness.Program.Item
import PushFitness.Text.Numeral

/-!
# Words as atoms

A word that spells a truth value or a number is that value, and any other word is
a name. An integer is a sign and digits; a number with a point or an exponent is
a double. Integers have a limit on their digits, doubles have none.
-/

namespace PushFitness

open Text

/-- An integer with more digits than are ever read, and how many it has. -/
structure TooManyDigits where
  count : Nat
deriving DecidableEq

def TooManyDigits.message (e : TooManyDigits) : String :=
  "Exceeds the limit (" ++ toString maxIntegerDigits
    ++ " digits) for integer string conversion: value has " ++ toString e.count
    ++ " digits; use sys.set_int_max_str_digits() to increase the limit"

/-- The digits of an exponent: `e`, an optional sign and at least one digit. No
characters at all are the exponent zero. -/
def exponent? : List Char → Option Int
  | [] => some 0
  | c :: cs =>
    if c = 'e' ∨ c = 'E' then
      let (negative, body) := takeSign cs
      match digitValues? body with
      | some (d :: ds) => some (signedValue negative (d :: ds))
      | _ => none
    else none

/-- The digits after the point, if there is a point, and the text behind them. -/
def fractionRun : List Char → List Nat × List Char
  | '.' :: cs => digitRun cs
  | cs => ([], cs)

/-- A sign and a decimal: digits with at most one point among them or at an end, and
an optional exponent. -/
def signedDecimal? (cs : List Char) : Option (Bool × Decimal) :=
  let (negative, body) := takeSign cs
  let (whole, afterWhole) := digitRun body
  let (fraction, afterFraction) := fractionRun afterWhole
  if whole.isEmpty && fraction.isEmpty then none
  else
    (exponent? afterFraction).map fun e =>
      (negative, ⟨ofDigits (whole ++ fraction), e - fraction.length⟩)

/-- The double nearest to a decimal with a sign. -/
def Binary64.ofDecimal (negative : Bool) (d : Decimal) : Binary64 :=
  .signed negative d.toMagnitude

/-- A sign and the digits of an integer, at least one. -/
def signedDigits? (cs : List Char) : Option (Bool × List Nat) :=
  let (negative, body) := takeSign cs
  match digitValues? body with
  | some (d :: ds) => some (negative, d :: ds)
  | _ => none

/-- The atom that a word spells. -/
def Item.ofWord (cs : List Char) : Except TooManyDigits Item :=
  if cs = ['t', 'r', 'u', 'e'] then .ok (.bool true)
  else if cs = ['f', 'a', 'l', 's', 'e'] then .ok (.bool false)
  else
    match signedDigits? cs with
    | some (negative, digits) =>
      if digits.length ≤ maxIntegerDigits then .ok (.int (signedValue negative digits))
      else .error ⟨digits.length⟩
    | none =>
      match signedDecimal? cs with
      | some (negative, d) => .ok (.float (Binary64.ofDecimal negative d))
      | none => .ok (.name (String.ofList cs))

end PushFitness
