import PushFitness.Text.Printable
import PushFitness.Text.Surrogate

/-!
# Quoted text

The form in which a message shows a text: between single quotes, or between double
quotes if the text holds a single quote and no double one. The quote in use and
the backslash are escaped, line feed, carriage return and tabulator have short
escapes, and every other unprintable character is shown by its number.
-/

namespace PushFitness.Text

/-- A number in lower-case hexadecimal with at least `width` digits. -/
def hexChars (width n : Nat) : List Char :=
  let digits := Nat.toDigits 16 n
  List.replicate (width - digits.length) '0' ++ digits

/-- One character as it stands between quotes. -/
def quoteChar (quote c : Char) : List Char :=
  if c = quote || c = '\\' then ['\\', c]
  else if c = '\n' then ['\\', 'n']
  else if c = '\r' then ['\\', 'r']
  else if c = '\t' then ['\\', 't']
  else if isPrintable c then [c]
  else
    let n := codePoint c
    if n < 0x100 then '\\' :: 'x' :: hexChars 2 n
    else if n < 0x10000 then '\\' :: 'u' :: hexChars 4 n
    else '\\' :: 'U' :: hexChars 8 n

/-- The quote around a text. -/
def quoteFor (cs : List Char) : Char :=
  if '\'' ∈ cs ∧ '"' ∉ cs then '"' else '\''

def quotedChars (cs : List Char) : List Char :=
  let quote := quoteFor cs
  quote :: cs.flatMap (quoteChar quote) ++ [quote]

/-- A text between quotes, as a message shows it. -/
def quoted (s : String) : String := String.ofList (quotedChars s.toList)

end PushFitness.Text
