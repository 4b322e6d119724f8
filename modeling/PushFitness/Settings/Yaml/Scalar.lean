import PushFitness.Settings.Value
import PushFitness.Settings.Yaml.Base64
import PushFitness.Settings.Yaml.Fault
import PushFitness.Settings.Yaml.Tag

/-!
# The values of scalars

What a scalar of some kind denotes. A scalar has its kind from its spelling or from a
tag, and a tag may give it a kind that it is not spelled like; then it is a fault. In
numbers underscores are passed over wherever they stand.
-/

namespace PushFitness.Yaml

open Text

/-- A text without its underscores. -/
def withoutLines (cs : List Char) : List Char := cs.filter (· ≠ '_')

/-! ## Integers -/

/-- The value of a digit of some base, of any script if it is a decimal digit. -/
def digitIn? (base : Nat) (c : Char) : Option Nat :=
  ((digitValue? c).or (hexValue? c)).filter (· < base)

/-- The letter of the mark that may stand in front of digits of a base. -/
def baseLetter? : Nat → Option Char
  | 2 => some 'b'
  | 8 => some 'o'
  | 16 => some 'x'
  | _ => none

/-- A text without the mark of a base at its front. -/
def withoutBase (base : Nat) (cs : List Char) : List Char :=
  match cs with
  | '0' :: letter :: rest => if some letter.toLower = baseLetter? base then rest else cs
  | _ => cs

/-- The integer that a text spells in a base, with blanks around it, a sign, and a mark of
the base. The digits of decimal ones are limited. -/
def integerIn (base : Nat) (cs : List Char) : Except Fault Int :=
  let (negative, body) := takeSign (strip isMargin cs)
  match (withoutBase base body).mapM (digitIn? base) with
  | some (d :: ds) =>
    if base = 10 && maxIntegerDigits ≤ ds.length then .error (.tooManyDigits ⟨ds.length + 1⟩)
    else
      let size := (d :: ds).foldl (fun n d => base * n + d) 0
      .ok (if negative then -(size : Int) else size)
  | _ => .error (.notAnInteger base (String.ofList cs))

/-- The integer of a text without a sign. -/
def magnitude (cs : List Char) : Except Fault Int :=
  match cs with
  | [] => .error .emptyNumber
  | ['0'] => .ok 0
  | '0' :: 'b' :: digits => integerIn 2 digits
  | '0' :: 'x' :: digits => integerIn 16 digits
  | '0' :: _ => integerIn 8 cs
  | _ =>
    if ':' ∈ cs then
      ((pieces ':' cs).mapM (integerIn 10)).map fun parts => parts.foldl (60 * · + ·) 0
    else integerIn 10 cs

/-- The integer that a scalar denotes. -/
def integer (cs : List Char) : Except Fault Int :=
  match withoutLines cs with
  | [] => .error .emptyNumber
  | body =>
    let (negative, body) := takeSign body
    (magnitude body).map fun n => if negative then -n else n

/-! ## Doubles -/

/-- The double that a text spells, with blanks around it. -/
def doubleIn (cs : List Char) : Except Fault Binary64 :=
  match Setting.spelledDouble? (strip isMargin cs) with
  | some x => .ok x
  | none => .error (.notADouble (String.ofList cs))

/-- The sum of the digits of a number in base sixty, the last digit first. The digits in
front of them count `weight` each. -/
def sexagesimal (sum : Binary64) (weight : Int) : List Binary64 → Except Fault Binary64
  | [] => .ok sum
  | x :: xs =>
    match Binary64.ofInt? weight with
    | none => .error .doubleTooLarge
    | some w => sexagesimal (sum.add (x.mul w)) (60 * weight) xs

/-- The double that a scalar denotes. -/
def double (cs : List Char) : Except Fault Binary64 :=
  match Setting.lowerChars (withoutLines cs) with
  | [] => .error .emptyNumber
  | text =>
    let (negative, body) := takeSign text
    let size : Except Fault Binary64 :=
      if String.ofList body = ".inf" then .ok .infinity
      else if String.ofList body = ".nan" then .ok .nan
      else if ':' ∈ body then
        ((pieces ':' body).mapM doubleIn).bind fun parts => sexagesimal .zero 1 parts.reverse
      else doubleIn body
    size.map fun x => if negative then x.neg else x

/-! ## Other kinds -/

/-- The truth value that a scalar denotes. -/
def truth (cs : List Char) : Except Fault Bool :=
  let word := String.ofList (Setting.lowerChars cs)
  if word ∈ ["yes", "true", "on"] then .ok true
  else if word ∈ ["no", "false", "off"] then .ok false
  else .error (.notATruth word)

/-- The day or time that a scalar denotes. -/
def dayOrTime (cs : List Char) : Except Fault Setting :=
  let body := if cs.getLast? = some '\n' then cs.dropLast else cs
  match Timestamp.ofChars? body with
  | none => .error .notATimestamp
  | some t =>
    match t.fault? with
    | some fault => .error (.calendar fault)
    | none => .ok (if t.clock?.isSome then .time else .day)

/-- The bytes that a scalar denotes. -/
def byteString (cs : List Char) : Except Fault Setting :=
  match if Setting.isAscii cs then Base64.decode? cs else none with
  | some bs => .ok (.bytes bs)
  | none => malformed

/-- The value of a scalar of some kind. Collections are no scalars. -/
def scalarValue (tag : Tag) (cs : List Char) : Except Fault Setting :=
  match tag with
  | .null => .ok .null
  | .bool => (truth cs).map .bool
  | .int => (integer cs).map .int
  | .float => (double cs).map .float
  | .binary => byteString cs
  | .timestamp => dayOrTime cs
  | .text => .ok (.text (String.ofList cs))
  | _ => malformed

end PushFitness.Yaml
