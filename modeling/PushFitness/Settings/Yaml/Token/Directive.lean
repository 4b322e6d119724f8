import PushFitness.Settings.Yaml.Token.Literal
import PushFitness.Settings.Yaml.Token.Property

/-!
# Directives

A directive takes up a line: a percent sign, a name, and what the name asks for. Of
unknown names the whole line is passed over.
-/

namespace PushFitness.Yaml

/-- The number at the front. -/
def decimalRun (cells : List Cell) : Except Fault (Nat × List Cell) :=
  let (digits, rest) := spanChars Char.isDigit cells
  match Text.digitValues? digits with
  | some (d :: ds) => .ok (Text.ofDigits (d :: ds), rest)
  | _ => malformed

/-- The version of the notation: two numbers with a point between them. -/
def version (cells : List Cell) : Except Fault (Directive × List Cell) := do
  let (major, rest) ← decimalRun (dropChars (· = ' ') cells)
  match rest with
  | ⟨'.', _⟩ :: rest =>
    let (_, rest) ← decimalRun rest
    if atGap rest then return (.version major, rest) else malformed
  | _ => malformed

/-- A handle and what it stands for. -/
def handleDirective (fuel : Nat) (cells : List Cell) : Except Fault (Directive × List Cell) := do
  let (name, rest) ← handle (dropChars (· = ' ') cells)
  if rest.isEmpty || !nextIs (· = ' ') rest then malformed
  else
    let (expansion, rest) ← uri fuel (dropChars (· = ' ') rest)
    if atGap rest then return (.handle name expansion, rest) else malformed

/-- The directive whose percent sign is in front. -/
def directive (fuel : Nat) (cells : List Cell) : Except Fault (Directive × List Cell) := do
  let (name, rest) ← nameRun cells
  if !atGap rest then malformed
  else
    let (d, rest) ← match String.ofList name with
      | "YAML" => version rest
      | "TAG" => handleDirective fuel rest
      | _ => pure (.other, dropChars (!isBreak ·) rest)
    return (d, ← restOfLine rest)

end PushFitness.Yaml
