import PushFitness.Settings.Yaml.Fault
import PushFitness.Settings.Yaml.Token.Folding
import PushFitness.Text.Surrogate

/-!
# Quoted scalars

Between single quotes a quote is written twice; between double quotes a backslash
starts an escape, or takes away the line break behind it. Lines are folded, and blanks
around a line break do not count. The mark of a document may not stand inside.
-/

namespace PushFitness.Yaml

/-- The two kinds of quotes. -/
inductive Quote
  | single
  | double
deriving DecidableEq

def Quote.char : Quote → Char
  | single => '\''
  | double => '"'

/-- Characters in front of a text that has been read. -/
def prepend (cs : List Char) :
    Except Fault (List Char × List Cell) → Except Fault (List Char × List Cell) :=
  Except.map fun (text, rest) => (cs ++ text, rest)

/-! ## Line breaks -/

/-- The line breaks at the front, and blanks around them. The mark of a document at the
start of a line is a fault. -/
def quotedBreaks (atLineStart : Bool) : List Cell → Except Fault (List Char × List Cell)
  | [] => .ok ([], [])
  | c :: cells =>
    if atLineStart && atDocumentMark (c :: cells) then malformed
    else if isSpace c.char then quotedBreaks false cells
    else if isBreak c.char then prepend [c.char] (quotedBreaks true cells)
    else .ok ([], c :: cells)

/-- What blanks and line breaks at the front amount to. -/
def quotedGap (cells : List Cell) : Except Fault (List Char × List Cell) :=
  let (blanks, rest) := spanChars isSpace cells
  match rest with
  | [] => malformed
  | c :: behind =>
    if isBreak c.char then (quotedBreaks true behind).map fun (bs, rest) => (fold c.char bs, rest)
    else .ok (blanks, rest)

/-! ## Escapes -/

/-- The character of an escape with one letter. -/
def escape? : Char → Option Char
  | '0' => some '\x00'
  | 'a' => some '\x07'
  | 'b' => some '\x08'
  | 't' => some '\t'
  | '\t' => some '\t'
  | 'n' => some '\n'
  | 'v' => some '\x0b'
  | 'f' => some '\x0c'
  | 'r' => some '\r'
  | 'e' => some '\x1b'
  | ' ' => some ' '
  | '"' => some '"'
  | '\\' => some '\\'
  | '/' => some '/'
  | 'N' => some '\x85'
  | '_' => some '\xa0'
  | 'L' => some '\u2028'
  | 'P' => some '\u2029'
  | _ => none

/-- How many hexadecimal digits stand behind the letter of a numeric escape. -/
def escapeWidth? : Char → Option Nat
  | 'x' => some 2
  | 'u' => some 4
  | 'U' => some 8
  | _ => none

/-- The number that the characters at the front spell with as many hexadecimal digits as
are asked for. -/
def hexNumber? (width : Nat) (cells : List Cell) : Option Nat := do
  let digits ← (cells.take width).mapM fun c => hexValue? c.char
  if digits.length = width then some (digits.foldl (fun n d => 16 * n + d) 0) else none

/-- The character with a number. -/
def characterAt (n : Nat) : Except Fault Char :=
  if n < 0x110000 then .ok (Text.ofCodePoint n)
  else if n < 0x80000000 then .error .noCharacter
  else .error .codeTooLarge

/-- What stands for an escape, whose backslash is in front. -/
def escaped : List Cell → Except Fault (List Char × List Cell)
  | [] => malformed
  | c :: cells =>
    match escape? c.char, escapeWidth? c.char with
    | some d, _ => .ok ([d], cells)
    | none, some width =>
      match hexNumber? width cells with
      | some n => (characterAt n).map fun d => ([d], cells.drop width)
      | none => malformed
    | none, none => if isBreak c.char then quotedBreaks true cells else malformed

/-! ## Scalars -/

/-- The text up to the closing quote, and what stands behind the quote, in at most `fuel`
steps. Every step takes a character. -/
def quotedText (q : Quote) : (fuel : Nat) → List Cell → Except Fault (List Char × List Cell)
  | 0, _ => malformed
  | _, [] => malformed
  | fuel + 1, c :: cells =>
    if q = .single && c.char = '\'' && !cells.isEmpty && nextIs (· = '\'') cells then
      prepend ['\''] (quotedText q fuel (cells.drop 1))
    else if c.char = q.char then .ok ([], cells)
    else if isSpace c.char || isBreak c.char then
      match quotedGap (c :: cells) with
      | .ok (text, rest) => prepend text (quotedText q fuel rest)
      | .error f => .error f
    else if q = .double && c.char = '\\' then
      match escaped cells with
      | .ok (text, rest) => prepend text (quotedText q fuel rest)
      | .error f => .error f
    else prepend [c.char] (quotedText q fuel cells)

end PushFitness.Yaml
