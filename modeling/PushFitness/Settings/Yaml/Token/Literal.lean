import PushFitness.Settings.Yaml.Character
import PushFitness.Settings.Yaml.Fault

/-!
# Scalars made of lines

Behind a bar or an angle the lines that are indented further are a text. Behind a bar
they stay as they are; behind an angle they are folded, unless a line starts with a
blank. Behind the mark a digit may say how far the lines are indented, which is
otherwise read off the first line that is not blank, and a sign may say what becomes of
the line breaks at the end: without one the first of them is kept, with a minus sign
none, and with a plus sign all.
-/

namespace PushFitness.Yaml

/-- What becomes of the line breaks at the end. -/
inductive Chomping
  | clip
  | strip
  | keep
deriving DecidableEq

/-- What stands behind the mark. -/
structure LiteralHeader where
  chomping : Chomping
  increment? : Option Nat

/-- The rest of a line that holds blanks and a comment at most, and its break. -/
def restOfLine (cells : List Cell) : Except Fault (List Cell) :=
  let body := dropChars (· = ' ') cells
  let rest := match body with
    | ⟨'#', _⟩ :: _ => dropChars (!isBreak ·) body
    | _ => body
  if atLineEnd rest then .ok (rest.drop 1) else malformed

namespace LiteralHeader

/-- The sign at the front, if there is one. -/
def takeChomping : List Cell → Option Chomping × List Cell
  | ⟨'+', _⟩ :: cells => (some .keep, cells)
  | ⟨'-', _⟩ :: cells => (some .strip, cells)
  | cells => (none, cells)

/-- The digit at the front, if there is one. -/
def takeIncrement : List Cell → Option Nat × List Cell
  | [] => (none, [])
  | c :: cells =>
    if c.char.isDigit then (hexValue? c.char, cells) else (none, c :: cells)

/-- A sign and a digit in either order, and the rest of the line. -/
def ofCells (cells : List Cell) : Except Fault (LiteralHeader × List Cell) := do
  let (early?, cells) := takeChomping cells
  let (increment?, cells) := takeIncrement cells
  let (late?, cells) := if early?.isSome then (none, cells) else takeChomping cells
  if increment? = some 0 || !atGap cells then malformed
  else return (⟨(early?.or late?).getD .clip, increment?⟩, ← restOfLine cells)

end LiteralHeader

/-! ## Lines -/

/-- The breaks of the blank lines at the front, and the width of the widest of them or of
the indentation behind them. -/
def leadingLines : List Cell → List Char × Nat × List Cell
  | [] => ([], 0, [])
  | c :: cells =>
    let (breaks, width, rest) := leadingLines cells
    if c.char = ' ' then (breaks, max (c.position.column + 1) width, rest)
    else if isBreak c.char then (c.char :: breaks, width, rest)
    else ([], 0, c :: cells)

/-- The breaks of the blank lines at the front. Of the blanks of a line those up to the
indentation are passed over. -/
def blankLines (indent : Nat) : List Cell → List Char × List Cell
  | [] => ([], [])
  | c :: cells =>
    if c.char = ' ' && c.position.column < indent then blankLines indent cells
    else if isBreak c.char then
      let (breaks, rest) := blankLines indent cells
      (c.char :: breaks, rest)
    else ([], c :: cells)

/-- Lines that have been read: the text without the breaks behind it, the break of the last
line, and the breaks of the blank lines that follow. -/
structure Lines where
  text : List Char
  lineBreak : List Char
  trailing : List Char
  rest : List Cell

/-- Whether a line of the text starts here. -/
def startsLine (indent : Nat) : List Cell → Bool
  | [] => false
  | c :: _ => c.position.column = indent

/-- What stands between two lines of text for the break behind the first one. -/
def joint (folded : Bool) (line lineBreak breaks : List Char) (next : List Cell) : List Char :=
  let isText (cs : List Char) : Bool := (cs.head?.map (!isSpace ·)).getD true
  if folded && lineBreak = ['\n'] && isText line && isText ((next.take 1).map Cell.char) then
    if breaks.isEmpty then [' '] else []
  else lineBreak

/-- The lines at the front, with the breaks in front of them, at most `fuel` lines. Every
line takes a character. -/
def textLines (folded : Bool) (indent : Nat) : (fuel : Nat) → List Char → List Cell → Lines
  | 0, breaks, cells => ⟨[], [], breaks, cells⟩
  | fuel + 1, breaks, cells =>
    if !startsLine indent cells then ⟨[], [], breaks, cells⟩
    else
      let (line, behind) := spanChars (!isBreak ·) cells
      let lineBreak := (behind.take 1).map Cell.char
      let (trailing, next) := blankLines indent (behind.drop 1)
      if startsLine indent next then
        let more := textLines folded indent fuel trailing next
        let middle := joint folded line lineBreak trailing next
        { more with text := breaks ++ line ++ middle ++ more.text }
      else ⟨breaks ++ line, lineBreak, trailing, next⟩

/-- The text of lines as their end is chomped. -/
def Lines.chomped (chomping : Chomping) (ls : Lines) : List Char :=
  match chomping with
  | .strip => ls.text
  | .clip => ls.text ++ ls.lineBreak
  | .keep => ls.text ++ ls.lineBreak ++ ls.trailing

/-- The text behind a mark, inside a margin, of at most `fuel` lines. -/
def literalText (folded : Bool) (margin fuel : Nat) (cells : List Cell) :
    Except Fault (List Char × List Cell) := do
  let (header, cells) ← LiteralHeader.ofCells cells
  let least := max 1 margin
  let (indent, breaks, rest) := match header.increment? with
    | some n =>
      let indent := least + n - 1
      (indent, blankLines indent cells)
    | none =>
      let (breaks, width, rest) := leadingLines cells
      (max least width, breaks, rest)
  let ls := textLines folded indent fuel breaks rest
  return (ls.chomped header.chomping, ls.rest)

end PushFitness.Yaml
