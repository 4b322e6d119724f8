import PushFitness.Settings.Yaml.Token.Folding

/-!
# Plain scalars

A scalar without quotes is made of runs of characters with gaps between them. A run
ends at a blank, at a colon in front of a blank, and between brackets at a mark. A gap
is made of blanks or of line breaks. The scalar ends where no run follows a gap, in
front of a comment or the mark of a document, and, outside of brackets, where the
indentation falls back.
-/

namespace PushFitness.Yaml

/-- Marks between brackets that end a run. -/
def flowMarks : List Char := [',', '[', ']', '\x7b', '\x7d']

/-- Characters that no plain scalar starts with, unless the character that follows makes up
for it. -/
def indicators : List Char :=
  ['-', '?', ':', '#', '&', '*', '!', '|', '>', '\'', '"', '%', '@', '\x60'] ++ flowMarks

/-- Whether a plain scalar starts with a character in front of others. -/
def startsPlain (inFlow : Bool) (c : Char) (behind : List Cell) : Bool :=
  (!isSpace c && !isBreak c && c ∉ indicators)
    || (!atBlank behind && (c = '-' || (!inFlow && (c = '?' || c = ':'))))

/-- Whether a run ends at a character in front of others. -/
def endsRun (inFlow : Bool) (c : Char) (behind : List Cell) : Bool :=
  isSpace c || isBreak c
    || (c = ':' && (atBlank behind || (inFlow && nextIs (· ∈ flowMarks) behind)))
    || (inFlow && (c = '?' || c ∈ flowMarks))

/-- The run at the front, and what stands behind it. -/
def plainRun (inFlow : Bool) : List Cell → List Char × List Cell
  | [] => ([], [])
  | c :: cells =>
    if endsRun inFlow c.char cells then ([], c :: cells)
    else
      let (run, rest) := plainRun inFlow cells
      (c.char :: run, rest)

/-! ## Gaps -/

/-- A gap: what it amounts to if the scalar goes on, whether a line ends in it, and what
stands behind it. A gap in front of the mark of a document has no text. -/
structure Gap where
  text? : Option (List Char)
  crossesLine : Bool
  rest : List Cell

/-- Line breaks among blanks, up to the mark of a document. -/
def plainBreaks : List Cell → Option (List Char) × List Cell
  | [] => (some [], [])
  | c :: cells =>
    if c.char = ' ' then plainBreaks cells
    else if isBreak c.char then
      if atDocumentMark cells then (none, cells)
      else
        let (breaks, rest) := plainBreaks cells
        (breaks.map (c.char :: ·), rest)
    else (some [], c :: cells)

namespace Gap

/-- The gap at the front. -/
def ofCells (cells : List Cell) : Gap :=
  let (blanks, rest) := spanChars (· = ' ') cells
  match rest with
  | [] => ⟨some blanks, false, []⟩
  | c :: behind =>
    if !isBreak c.char then ⟨some blanks, false, rest⟩
    else if atDocumentMark behind then ⟨none, true, behind⟩
    else
      let (breaks, rest) := plainBreaks behind
      ⟨breaks.map (fold c.char), true, rest⟩

/-- Whether a scalar with a margin ends at a gap whatever follows. -/
def isLast (inFlow : Bool) (margin : Nat) (g : Gap) : Bool :=
  (g.text?.getD []).isEmpty
    || match g.rest with
      | [] => true
      | c :: _ => c.char = '#' || (!inFlow && c.position.column < margin)

end Gap

/-! ## Scalars -/

/-- A plain scalar: its text, whether a line ends in the gap behind it, and what stands
behind that gap. -/
structure PlainScalar where
  text : List Char
  crossesLine : Bool
  rest : List Cell

/-- The plain scalar at the front, of at most `fuel` runs. Every run has a character, so as
many runs as there are characters suffice. -/
def plainScalar (inFlow : Bool) (margin : Nat) : (fuel : Nat) → List Cell → PlainScalar
  | 0, cells => ⟨[], false, cells⟩
  | fuel + 1, cells =>
    let (run, behind) := plainRun inFlow cells
    let gap := Gap.ofCells behind
    if gap.isLast inFlow margin then ⟨run, gap.crossesLine, gap.rest⟩
    else if (plainRun inFlow gap.rest).1.isEmpty then ⟨run, gap.crossesLine, gap.rest⟩
    else
      let more := plainScalar inFlow margin fuel gap.rest
      { more with text := run ++ gap.text?.getD [] ++ more.text }

end PushFitness.Yaml
