/-!
# Halves of surrogate pairs

A text can hold half of a surrogate pair where an escape names one. A half is no
character. The private character `0x100000` code points further on is kept in its
place, and its own number is what is shown.
-/

namespace PushFitness.Text

/-- How far the character that is kept for a half lies behind it. -/
def surrogateShift : Nat := 0x100000

def isSurrogate (n : Nat) : Bool := 0xD800 ≤ n && n ≤ 0xDFFF

/-- The character that is kept for a code point. -/
def ofCodePoint (n : Nat) : Char := Char.ofNat (if isSurrogate n then n + surrogateShift else n)

/-- The code point that a character is kept for. -/
def codePoint (c : Char) : Nat :=
  if isSurrogate (c.toNat - surrogateShift) then c.toNat - surrogateShift else c.toNat

end PushFitness.Text
