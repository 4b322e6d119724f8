import PushFitness.Program.Atom

/-!
# Values of settings

A settings document is a tree of values. A field of a configuration asks for an
integer, a double or a text, and takes any value that denotes one without loss:
truth values count as 0 and 1, a double may stand for the integer it is equal to,
and a text for the number it spells. Texts are taken from texts, and from bytes that
encode one.
-/

namespace PushFitness

/-- A value in a settings document. Of days and times no field has any use, so only their
kinds are kept. Of the keys of a table those that are texts are kept. -/
inductive Setting
  | null
  | bool (b : Bool)
  | int (n : Int)
  | float (x : Binary64)
  | text (s : String)
  | bytes (bs : List UInt8)
  | day
  | time
  | list (items : List Setting)
  | table (entries : List (Option String × Setting))
  | keySet (keys : List (Option String))

namespace Setting

instance : Inhabited Setting := ⟨null⟩

open Text

/-! ## Numbers spelled in texts -/

def isAscii (cs : List Char) : Bool := cs.all fun c => c.toNat < 0x80

/-- The characters of a numeral behind its leading zeros, among which underscores are free.
A minus sign or a digit goes on from there. A point does too, and the zero in front of it
is kept, as is the last of all if nothing follows. -/
def withoutLeadingZeros? : List Char → Option (List Char)
  | '0' :: cs => behind '0' cs
  | c :: cs => if goesOn c then some (c :: cs) else none
  | [] => none
where
  goesOn (c : Char) : Bool := c = '-' || ('1' ≤ c && c ≤ '9')
  behind (last : Char) : List Char → Option (List Char)
    | [] => some [last]
    | c :: cs =>
      if c = '0' || c = '_' then behind c cs
      else if goesOn c then some (c :: cs)
      else if c = '.' then some (last :: c :: cs)
      else none

/-- The part of a numeral in front of a point that only zeros follow, at least one. -/
def withoutZeroFraction (cs : List Char) : List Char :=
  match cs.dropWhile (· ≠ '.') with
  | _ :: '0' :: zeros => if zeros.all (· = '0') then cs.takeWhile (· ≠ '.') else cs
  | _ => cs

/-- A text with single underscores inside, without them. -/
def withoutUnderscores? (cs : List Char) : Option (List Char) :=
  if cs.head? = some '_' || cs.getLast? = some '_' then none
  else if (cs.zip (cs.drop 1)).any fun (a, b) => a = '_' && b = '_' then none
  else if '_' ∈ cs then some (cs.filter (· ≠ '_'))
  else none

/-- A sign and what stands behind it, if that does not start with the other sign. -/
def takeSingleSign? (cs : List Char) : Option (Bool × List Char) :=
  match cs with
  | '+' :: '-' :: _ => none
  | '-' :: '+' :: _ => none
  | _ => some (takeSign cs)

/-- The integer that digits spell in full: a minus sign if it is negative, and no zero in
front of another digit. The sign counts among the digits of which there are too many. -/
def fullInteger? (cs : List Char) : Option Int :=
  let (negative, body) := match cs with
    | '-' :: body => (true, body)
    | _ => (false, cs)
  match body with
  | [] => none
  | ['0'] => some 0
  | '0' :: _ => none
  | _ =>
    if maxIntegerDigits < cs.length then none
    else (digitValues? body).map (signedValue negative)

/-- The integer that a text spells: blanks around it, a sign, zeros in front of its digits,
single underscores between them, and a fraction of zeros. The zeros may stand in front of
a minus sign, unless the text starts with one. -/
def integerOfText? (s : String) : Option Int := do
  let cs := strip isMargin s.toList
  if !isAscii cs then none
  let (negative, body) ← takeSingleSign? cs
  let digits := withoutZeroFraction (← withoutLeadingZeros? body)
  let joined := (withoutUnderscores? digits).getD digits
  fullInteger? (if negative then '-' :: joined else joined)

/-- A text with ASCII letters in lower case. -/
def lowerChars (cs : List Char) : List Char := cs.map Char.toLower

/-- The double that characters spell: a decimal, an infinity or not a number, each with an
optional sign and in any case. -/
def spelledDouble? (cs : List Char) : Option Binary64 :=
  let (negative, body) := takeSign cs
  let word := String.ofList (lowerChars body)
  if word = "inf" || word = "infinity" then some (.signed negative .infinity)
  else if word = "nan" then some .nan
  else (signedDecimal? cs).map fun (negative, d) => Binary64.ofDecimal negative d

/-- The double that plain characters spell. -/
def doubleOfChars? (cs : List Char) : Option Binary64 :=
  if isAscii cs then spelledDouble? cs else none

/-- The double that a text spells, with blanks around it or with underscores in it. -/
def doubleOfText? (s : String) : Option Binary64 :=
  (doubleOfChars? (strip isMargin s.toList)).or
    ((withoutUnderscores? s.toList).bind doubleOfChars?)

/-! ## Conversions -/

/-- The integer equal to a double, if it fits 64 bits and is not the least of them. -/
def integerOfDouble? (x : Binary64) : Option Int :=
  match x.truncate? with
  | some n =>
    if n.natAbs < 0x8000000000000000 ∧ (Binary64.ofInt n).eq x then some n else none
  | none => none

/-- The text that bytes encode. -/
def textOfBytes? (bs : List UInt8) : Option String := String.fromUTF8? ⟨bs.toArray⟩

def text? : Setting → Option String
  | text s => some s
  | bytes bs => textOfBytes? bs
  | _ => none

/-- The integer that a value denotes. -/
def int? : Setting → Option Int
  | bool b => some (if b then 1 else 0)
  | int n => some n
  | float x => integerOfDouble? x
  | v => v.text?.bind integerOfText?

/-- The double that a value denotes. -/
def float? : Setting → Option Binary64
  | bool b => some (if b then .one else .zero)
  | int n => Binary64.ofInt? n
  | float x => some x
  | v => v.text?.bind doubleOfText?

/-- The kind of a value as an error message names it. -/
def kind : Setting → String
  | null => "NoneType"
  | bool _ => "bool"
  | int _ => "int"
  | float _ => "float"
  | text _ => "str"
  | bytes _ => "bytes"
  | day => "date"
  | time => "datetime"
  | list _ => "list"
  | table _ => "dict"
  | keySet _ => "set"

end Setting

end PushFitness
