/-!
# The characters of a document

A document holds no control characters but tabulators and line breaks. All kinds of
line breaks are made one, but for the separators of lines and paragraphs, which stay
as they are and end lines as well.

Indentation carries meaning, so every character is read together with its place.
-/

namespace PushFitness.Yaml

/-- Whether a character may stand in a document: no control character but a tab, a line
break or a next-line mark, and no character that is none. -/
def isPermitted (c : Char) : Bool :=
  c = '\t' || c = '\n' || c = '\r' || (' ' ≤ c && c ≤ '~') || c = '\x85'
    || ('\xa0' ≤ c && c ≠ '\ufffe' && c ≠ '\uffff')

/-- A text with one kind of line breaks. -/
def unifyBreaks : List Char → List Char
  | '\r' :: '\n' :: cs => '\n' :: unifyBreaks cs
  | c :: cs => (if c = '\r' || c = '\x85' then '\n' else c) :: unifyBreaks cs
  | [] => []

/-- The mark of byte order, which takes up no column. -/
def byteOrderMark : Char := '\ufeff'

def isBreak (c : Char) : Bool := c = '\n' || c = '\u2028' || c = '\u2029'

def isSpace (c : Char) : Bool := c = ' ' || c = '\t'

/-- Letters and digits of the Latin alphabet, the hyphen and the underscore. -/
def isNameChar (c : Char) : Bool := c.isAlphanum || c = '-' || c = '_'

/-- The value of a hexadecimal digit, and with it of digits of smaller bases. -/
def hexValue? (c : Char) : Option Nat :=
  if c.isDigit then some (c.toNat - '0'.toNat)
  else if 'a' ≤ c && c ≤ 'f' then some (c.toNat - 'a'.toNat + 10)
  else if 'A' ≤ c && c ≤ 'F' then some (c.toNat - 'A'.toNat + 10)
  else none

/-! ## Places -/

/-- The place of a character: the number of characters and of lines in front of it, and
its column. -/
structure Position where
  index : Nat
  line : Nat
  column : Nat
deriving DecidableEq

namespace Position

def start : Position := ⟨0, 0, 0⟩

/-- The place behind a character. -/
def next (p : Position) (c : Char) : Position :=
  if isBreak c then ⟨p.index + 1, p.line + 1, 0⟩
  else ⟨p.index + 1, p.line, if c = byteOrderMark then p.column else p.column + 1⟩

end Position

/-- A character at its place. -/
structure Cell where
  char : Char
  position : Position
deriving DecidableEq

namespace Cell

/-- Characters at their places, the first one at `p`. -/
def ofChars (p : Position) : List Char → List Cell
  | [] => []
  | c :: cs => ⟨c, p⟩ :: ofChars (p.next c) cs

end Cell

/-! ## What stands next -/

/-- Whether nothing stands next, or a character of a class. -/
def nextIs (class? : Char → Bool) : List Cell → Bool
  | [] => true
  | c :: _ => class? c.char

/-- Whether a line ends here. -/
def atLineEnd (cells : List Cell) : Bool := nextIs isBreak cells

/-- Whether a blank stands next or the line ends. -/
def atBlank (cells : List Cell) : Bool := nextIs (fun c => isSpace c || isBreak c) cells

/-- Whether a blank other than a tab stands next or the line ends. -/
def atGap (cells : List Cell) : Bool := nextIs (fun c => c = ' ' || isBreak c) cells

/-- Whether three equal characters and a gap stand next. -/
def atTriple (mark : Char) : List Cell → Bool
  | a :: b :: c :: cells => a.char = mark && b.char = mark && c.char = mark && atBlank cells
  | _ => false

/-- Whether, at the start of a line, the mark of a document's start or end stands next. -/
def atDocumentMark (cells : List Cell) : Bool := atTriple '-' cells || atTriple '.' cells

/-- The characters at the front that are of a class, and what stands behind them. -/
def spanChars (class? : Char → Bool) : List Cell → List Char × List Cell
  | [] => ([], [])
  | c :: cells =>
    if class? c.char then
      let (run, rest) := spanChars class? cells
      (c.char :: run, rest)
    else ([], c :: cells)

/-- What stands behind the characters at the front that are of a class. -/
def dropChars (class? : Char → Bool) (cells : List Cell) : List Cell :=
  cells.dropWhile fun c => class? c.char

end PushFitness.Yaml
