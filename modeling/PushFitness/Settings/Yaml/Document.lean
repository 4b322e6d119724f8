import PushFitness.Settings.Yaml.Reading
import PushFitness.Settings.Yaml.Token.Lexer

/-!
# Settings documents

A document is read in two steps, from characters to tokens and from tokens to nodes;
its value is that of the node at the root. The notation is YAML in its version 1.1.
-/

namespace PushFitness.Yaml

/-- The value of a document with some characters. -/
def documentOfChars (cs : List Char) : Except Fault Setting := do
  if !cs.all isPermitted then malformed
  else
    let root ← Node.ofTokens (Token.ofText cs)
    root.value.mapError DeepFault.fault

/-- The value of a document. A document without content has the value null. -/
def document (text : String) : Except Fault Setting := documentOfChars text.toList

end PushFitness.Yaml
