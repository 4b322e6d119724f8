/-!
# Blanks

The characters that separate words: the controls from tabulator to carriage
return and from U+001C to U+001F, the next-line control, and every space, line
and paragraph separator.
-/

namespace PushFitness.Text

def isBlank (c : Char) : Bool :=
  let n := c.toNat
  (0x09 ≤ n && n ≤ 0x0D) || (0x1C ≤ n && n ≤ 0x20) || n == 0x85 || n == 0xA0 || n == 0x1680
    || (0x2000 ≤ n && n ≤ 0x200A) || n == 0x2028 || n == 0x2029 || n == 0x202F || n == 0x205F
    || n == 0x3000

/-- Blanks that may stand around a number in a setting: all but the separators U+001C to
U+001F. -/
def isMargin (c : Char) : Bool := isBlank c && !(0x1C ≤ c.toNat && c.toNat ≤ 0x1F)

/-- The pieces of a text between the occurrences of a character. -/
def pieces (mark : Char) : List Char → List (List Char)
  | [] => [[]]
  | c :: cs =>
    match pieces mark cs with
    | first :: rest => if c = mark then [] :: first :: rest else (c :: first) :: rest
    | [] => []

/-- A text without the characters of a class at its two ends. -/
def strip (class? : Char → Bool) (cs : List Char) : List Char :=
  ((cs.dropWhile class?).reverse.dropWhile class?).reverse

end PushFitness.Text
