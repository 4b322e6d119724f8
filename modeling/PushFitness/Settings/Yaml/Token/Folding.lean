import PushFitness.Settings.Yaml.Character

/-!
# Folding lines

A text that goes on over lines is folded: a single line break is a blank, and of
several breaks the first one does not count. Separators of lines and paragraphs always
count.
-/

namespace PushFitness.Yaml

/-- What a line break and the breaks behind it amount to. -/
def fold (first : Char) (others : List Char) : List Char :=
  if first ≠ '\n' then first :: others
  else if others.isEmpty then [' ']
  else others

end PushFitness.Yaml
