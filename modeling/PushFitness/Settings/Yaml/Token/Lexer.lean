import PushFitness.Settings.Yaml.Token.Directive
import PushFitness.Settings.Yaml.Token.Plain
import PushFitness.Settings.Yaml.Token.Quoted

/-!
# From characters to tokens

Outside of brackets indentation opens and closes collections. A list is opened by a
dash and a table by a key further to the right than the collection around it, and both
are closed by what stands further to the left.

Whether something is a key is known only when its colon is found. So what may be a key
is remembered together with its place, and the colon puts the tokens that announce a
key in front of it. A key stands on one line and has at most 1024 characters. At each
depth of brackets one candidate is remembered. One that stands where the innermost
table outside of brackets has its keys must turn out to be a key.
-/

namespace PushFitness.Yaml

/-- What may turn out to be a key: how many brackets are open around it, how many tokens
are in front of it, where it stands, and whether it has to be a key. -/
structure KeyCandidate where
  depth : Nat
  tokensBefore : Nat
  position : Position
  isRequired : Bool

/-- The most characters between the start of a key and its colon. -/
def maxKeyLength : Nat := 1024

/-- What is known between two tokens: the tokens so far, the last one first, and how many
they are; the margins of the open collections outside of brackets, the innermost first;
how many brackets are open; whether a key may start here; and the candidates for keys. A
margin is the column behind the one in which the collection's entries start. -/
structure Lexer where
  tokens : List Token
  count : Nat
  margins : List Nat
  depth : Nat
  allowsKey : Bool
  candidates : List KeyCandidate

namespace Lexer

def start : Lexer := ⟨[], 0, [], 0, true, []⟩

/-- The margin of the innermost collection. -/
def margin (l : Lexer) : Nat := l.margins.headD 0

/-- Whether a bracket is open. -/
def inFlow (l : Lexer) : Bool := l.depth ≠ 0

def push (l : Lexer) (t : Token) : Lexer :=
  { l with tokens := t :: l.tokens, count := l.count + 1 }

/-- Puts a token behind the first `n` tokens. -/
def insert (l : Lexer) (n : Nat) (t : Token) : Lexer :=
  { l with tokens := l.tokens.insertIdx (l.count - n) t, count := l.count + 1 }

def withKeys (l : Lexer) (allowed : Bool) : Lexer := { l with allowsKey := allowed }

/-! ## Indentation -/

/-- Closes the innermost collections that a test of their margins picks. -/
def closeWhile (l : Lexer) (isClosed : Nat → Bool) : Lexer :=
  let closed := (l.margins.takeWhile isClosed).length
  { l with
    tokens := List.replicate closed .blockEnd ++ l.tokens
    count := l.count + closed
    margins := l.margins.drop closed }

/-- Closes the collections that start to the right of a column, unless a bracket is open. -/
def closeTo (l : Lexer) (column : Nat) : Lexer :=
  if l.inFlow then l else l.closeWhile (column + 1 < ·)

/-- Closes all collections, unless a bracket is open. -/
def closeAll (l : Lexer) : Lexer := if l.inFlow then l else l.closeWhile fun _ => true

/-- Whether what starts in a column opens a collection. -/
def opensAt (l : Lexer) (column : Nat) : Bool := l.margin ≤ column

/-- Remembers the margin of a collection that starts in a column. -/
def enter (l : Lexer) (column : Nat) : Lexer := { l with margins := (column + 1) :: l.margins }

/-- Opens a collection in a column, if what starts there does. -/
def openAt (l : Lexer) (column : Nat) (t : Token) : Lexer :=
  if l.opensAt column then (l.enter column).push t else l

/-! ## Candidates for keys -/

/-- The candidate at the current depth. -/
def candidate? (l : Lexer) : Option KeyCandidate := l.candidates.find? (·.depth = l.depth)

/-- Forgets the candidates that a test picks; none of them may be required. -/
def forget (l : Lexer) (isPicked : KeyCandidate → Bool) : Except Fault Lexer :=
  if l.candidates.any fun k => isPicked k && k.isRequired then malformed
  else .ok { l with candidates := l.candidates.filter (!isPicked ·) }

/-- Forgets the candidate at the current depth. -/
def forgetCurrent (l : Lexer) : Except Fault Lexer := l.forget (·.depth = l.depth)

/-- Whether a colon at a place would come too late for a candidate. -/
def isStale (p : Position) (k : KeyCandidate) : Bool :=
  k.position.line ≠ p.line || maxKeyLength < p.index - k.position.index

/-- Forgets the candidates for which a colon would come too late. -/
def forgetStale (l : Lexer) (p : Position) : Except Fault Lexer := l.forget (isStale p)

/-- Remembers what starts at a place as a candidate, if a key may start there. -/
def remember (l : Lexer) (p : Position) : Except Fault Lexer :=
  if !l.allowsKey then .ok l
  else
    l.forgetCurrent.map fun l =>
      let isRequired := !l.inFlow && l.margin = p.column + 1
      { l with candidates := ⟨l.depth, l.count, p, isRequired⟩ :: l.candidates }

/-! ## Marks -/

/-- The mark of a document's start or end. -/
def documentMark (l : Lexer) (t : Token) : Except Fault Lexer :=
  (l.closeAll.forgetCurrent).map fun l => (l.withKeys false).push t

/-- An opening bracket. -/
def openBracket (l : Lexer) (p : Position) (t : Token) : Except Fault Lexer :=
  (l.remember p).map fun l => ({ l with depth := l.depth + 1 }.withKeys true).push t

/-- A closing bracket. -/
def closeBracket (l : Lexer) (t : Token) : Except Fault Lexer :=
  l.forgetCurrent.map fun l => ({ l with depth := l.depth - 1 }.withKeys false).push t

def comma (l : Lexer) : Except Fault Lexer :=
  l.forgetCurrent.map fun l => (l.withKeys true).push .comma

/-- Fails where, outside of brackets, no key may start. -/
def requireKeys (l : Lexer) : Except Fault Lexer :=
  if l.inFlow || l.allowsKey then .ok l else malformed

/-- Opens a collection in a column, if what starts there does and no bracket is open. -/
def openOutside (l : Lexer) (p : Position) (t : Token) : Lexer :=
  if l.inFlow then l else l.openAt p.column t

/-- The dash of an item. -/
def dash (l : Lexer) (p : Position) : Except Fault Lexer := do
  let l ← l.requireKeys
  let l ← (l.openOutside p .listStart).forgetCurrent
  return (l.withKeys true).push .dash

/-- The question mark of a key. -/
def key (l : Lexer) (p : Position) : Except Fault Lexer := do
  let l ← l.requireKeys
  let l ← (l.openOutside p .tableStart).forgetCurrent
  return (l.withKeys (!l.inFlow)).push .key

/-- Announces that a candidate is a key. -/
def announce (l : Lexer) (k : KeyCandidate) : Lexer :=
  let l := l.insert k.tokensBefore .key
  if !l.inFlow && l.opensAt k.position.column then
    (l.enter k.position.column).insert k.tokensBefore .tableStart
  else l

/-- The colon behind a key. -/
def value (l : Lexer) (p : Position) : Except Fault Lexer :=
  match l.candidate? with
  | some k =>
    let others := l.candidates.filter (·.depth ≠ l.depth)
    .ok (((({ l with candidates := others }).announce k).withKeys false).push .value)
  | none => do
    let l ← l.requireKeys
    let l ← (l.openOutside p .tableStart).forgetCurrent
    return (l.withKeys (!l.inFlow)).push .value

/-! ## Scalars and properties -/

/-- A token that may be a key or start one. -/
def atom (l : Lexer) (p : Position) (read : Except Fault (Token × List Cell)) :
    Except Fault (Lexer × List Cell) := do
  let l ← l.remember p
  let (t, rest) ← read
  return ((l.withKeys false).push t, rest)

/-- A plain scalar. Behind it a key may start if a line ends there. -/
def plain (l : Lexer) (p : Position) (fuel : Nat) (cells : List Cell) :
    Except Fault (Lexer × List Cell) := do
  let l ← l.remember p
  let s := plainScalar l.inFlow l.margin fuel cells
  return ((l.withKeys s.crossesLine).push (.scalar s.text true), s.rest)

/-- A scalar made of lines, behind which a key may start. -/
def literal (l : Lexer) (folded : Bool) (fuel : Nat) (cells : List Cell) :
    Except Fault (Lexer × List Cell) := do
  let l ← l.forgetCurrent
  let (text, rest) ← literalText folded l.margin fuel cells
  return ((l.withKeys true).push (.scalar text false), rest)

/-- The lexer behind the token that a character starts, and what stands behind it. A token
takes at most `fuel` steps, for which the number of characters suffices. -/
def next (l : Lexer) (fuel : Nat) (c : Cell) (cells : List Cell) :
    Except Fault (Lexer × List Cell) := do
  let p := c.position
  let all := c :: cells
  let l := (← l.forgetStale p).closeTo p.column
  let mark (l : Except Fault Lexer) : Except Fault (Lexer × List Cell) := l.map (·, cells)
  let named (token : List Char → Token) (read : Except Fault (List Char × List Cell)) :=
    l.atom p (read.map fun (cs, rest) => (token cs, rest))
  if p.column = 0 && c.char = '%' then
    let l ← l.closeAll.forgetCurrent
    let (d, rest) ← directive fuel cells
    return ((l.withKeys false).push (.directive d), rest)
  else if p.column = 0 && atTriple '-' all then
    return (← l.documentMark .documentStart, all.drop 3)
  else if p.column = 0 && atTriple '.' all then
    return (← l.documentMark .documentEnd, all.drop 3)
  else
    match c.char with
    | '[' => mark (l.openBracket p .openList)
    | '\x7b' => mark (l.openBracket p .openTable)
    | ']' => mark (l.closeBracket .closeList)
    | '\x7d' => mark (l.closeBracket .closeTable)
    | ',' => mark l.comma
    | '*' => named .reference (anchorName cells)
    | '&' => named .anchor (anchorName cells)
    | '!' =>
      l.atom p ((tagName fuel c cells).map fun (t, rest) => (.tag t.handle? t.suffix, rest))
    | '\'' => named (.scalar · false) (quotedText .single fuel cells)
    | '"' => named (.scalar · false) (quotedText .double fuel cells)
    | ch =>
      if ch = '-' && atBlank cells then mark (l.dash p)
      else if ch = '?' && (l.inFlow || atBlank cells) then mark (l.key p)
      else if ch = ':' && (l.inFlow || atBlank cells) then mark (l.value p)
      else if ch = '|' && !l.inFlow then l.literal false fuel cells
      else if ch = '>' && !l.inFlow then l.literal true fuel cells
      else if startsPlain l.inFlow ch cells then l.plain p fuel all
      else malformed

/-! ## Rows of tokens -/

/-- Passes over blanks, comments and line breaks. Outside of brackets a key may start
behind a line break. -/
def skip (inComment : Bool) (l : Lexer) : List Cell → Lexer × List Cell
  | [] => (l, [])
  | c :: cells =>
    if isBreak c.char then skip false (if l.inFlow then l else l.withKeys true) cells
    else if inComment then skip true l cells
    else if c.char = ' ' then skip false l cells
    else if c.char = '#' then skip true l cells
    else (l, c :: cells)

/-- The end of the text. -/
def finish (l : Lexer) : Except Fault Lexer := l.closeAll.forgetCurrent

/-- The number of tokens in front of the first candidate that a colon could still make a key,
where `cells` come next. -/
def settled (l : Lexer) (cells : List Cell) : Nat :=
  let isOpen (k : KeyCandidate) : Bool :=
    match cells with
    | [] => true
    | c :: _ => !isStale c.position k
  ((l.candidates.filter isOpen).map KeyCandidate.tokensBefore).foldl min l.count

/-- The tokens in their order. -/
def row (l : Lexer) : List Token := l.tokens.reverse

/-- The tokens in front of a fault. What may be a key is not told before that is settled, so
the fault stands in its place. -/
def rowBefore (l : Lexer) (cells : List Cell) (f : Fault) : List Token :=
  l.row.take (l.settled cells) ++ [.fault f]

/-- The tokens of a text, at most `fuel` of those that its characters start. Every such
token has a character. -/
def run : (fuel : Nat) → Lexer → List Cell → List Token
  | 0, l, cells => l.rowBefore cells .malformed
  | fuel + 1, l, cells =>
    match l.skip false cells with
    | (next, []) =>
      match next.finish with
      | .ok next => next.row
      | .error f => l.rowBefore cells f
    | (next, c :: behind) =>
      match next.next (fuel + 1) c behind with
      | .ok (next, rest) => run fuel next rest
      | .error f => l.rowBefore cells f

end Lexer

/-- The tokens of a text. A mark of byte order at its start counts for nothing. -/
def Token.ofText (text : List Char) : List Token :=
  let cells := Cell.ofChars .start (unifyBreaks text)
  let body := match cells with
    | [] => []
    | c :: rest => if c.char = byteOrderMark then rest else cells
  Lexer.run (cells.length + 1) .start body

end PushFitness.Yaml
