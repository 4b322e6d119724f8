import PushFitness.Settings.Yaml.Fault

/-!
# Tokens of documents

A document is a row of tokens. Marks and scalars are tokens, and so is the start and
the end of every collection, also where no more than indentation shows it. The last
token may be a fault, when no token can be read from there on.
-/

namespace PushFitness.Yaml

/-- A line about a document in front of it. Only the version of the notation, and handles
with the text that they stand for, have a meaning. -/
inductive Directive
  | version (major : Nat)
  | handle (name expansion : List Char)
  | other
deriving DecidableEq

inductive Token
  | directive (d : Directive)
  | documentStart
  | documentEnd
  | listStart
  | tableStart
  | blockEnd
  | openList
  | closeList
  | openTable
  | closeTable
  | comma
  | dash
  | key
  | value
  | anchor (name : List Char)
  | reference (name : List Char)
  | tag (handle? : Option (List Char)) (suffix : List Char)
  | scalar (text : List Char) (isPlain : Bool)
  | fault (f : Fault)
deriving DecidableEq

end PushFitness.Yaml
