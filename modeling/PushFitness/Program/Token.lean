import PushFitness.Text.Blank

/-!
# Tokens of program text

A bracket is a token by itself. Every longest run of characters that are neither
brackets nor blanks is a word. Blanks end words and are otherwise dropped.
-/

namespace PushFitness

/-- The two styles of brackets. -/
inductive Bracket
  | round
  | square
deriving DecidableEq

namespace Bracket

def opener : Bracket → Char
  | round => '('
  | square => '['

def closer : Bracket → Char
  | round => ')'
  | square => ']'

end Bracket

/-- A token of program text. -/
inductive Token
  | opening (b : Bracket)
  | closing (b : Bracket)
  | word (cs : List Char)
deriving DecidableEq

namespace Token

def chars : Token → List Char
  | opening b => [b.opener]
  | closing b => [b.closer]
  | word cs => cs

def text (t : Token) : String := String.ofList t.chars

/-- The token of a bracket character. -/
def ofBracket? : Char → Option Token
  | '(' => some (opening .round)
  | ')' => some (closing .round)
  | '[' => some (opening .square)
  | ']' => some (closing .square)
  | _ => none

/-- A finished word in front of the tokens behind it; no word if it is empty. -/
def consWord (run : List Char) (tokens : List Token) : List Token :=
  if run.isEmpty then tokens else .word run :: tokens

/-- The word characters a text starts with, and the tokens behind them. -/
def scan : List Char → List Char × List Token
  | [] => ([], [])
  | c :: cs =>
    let (run, tokens) := scan cs
    match ofBracket? c with
    | some bracket => ([], bracket :: consWord run tokens)
    | none => if Text.isBlank c then ([], consWord run tokens) else (c :: run, tokens)

/-- The tokens of a text, in order. -/
def ofChars (cs : List Char) : List Token :=
  let (run, tokens) := scan cs
  consWord run tokens

def ofText (s : String) : List Token := ofChars s.toList

end Token

end PushFitness
