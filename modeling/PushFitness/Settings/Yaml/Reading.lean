import PushFitness.Settings.Yaml.Node
import PushFitness.Settings.Yaml.Token

/-!
# From tokens to nodes

Tokens are read from left to right. A node may have an anchor and a tag in front of it,
and is a scalar or a collection; where neither is written it is empty. In lists between
brackets an entry of a table may stand, which is a table of its own. A list that is the
value of a key need not be indented, and then nothing shows where it starts and ends.

A reference stands for the node behind the anchor with its name. The anchor has to come
before it, and no two anchors have the same name.
-/

namespace PushFitness.Yaml

/-- What is known while nodes are read: the tokens to come, the nodes behind anchors, and
what handles stand for. -/
structure Reading where
  tokens : List Token
  anchors : List (List Char × Node)
  handles : List (List Char × List Char)

/-- A step of reading. -/
abbrev Step := StateT Reading (Except Fault)

namespace Reading

/-- The handles that need no directive. -/
def standardHandles : List (List Char × List Char) :=
  [(['!'], ['!']), (['!', '!'], Tag.standardStem)]

/-- The next token, if any is left. -/
def peek : Step (Option Token) := do return (← get).tokens.head?

/-- Passes over the next token. -/
def skip : Step Unit := modify fun r => { r with tokens := r.tokens.tail }

/-- Whether a token comes next. -/
def comes (t : Token) : Step Bool := do return (← peek) = some t

/-- Passes over a token if it comes next. -/
def accept (t : Token) : Step Bool := do
  let found ← comes t
  if found then skip
  return found

/-- Fails because of the next token. -/
def unexpected {α : Type} : Step α := do
  match ← peek with
  | some (.fault f) => throw f
  | _ => throw .malformed

/-- Passes over a token that has to come next. -/
def expect (t : Token) : Step Unit := do
  if !(← accept t) then unexpected

/-! ## Properties -/

/-- What may stand in front of a node: an anchor, and the full name of a tag. -/
structure Properties where
  anchor? : Option (List Char)
  tag? : Option (List Char)

/-- The anchor that comes next, if one does. -/
def anchor? : Step (Option (List Char)) := do
  match ← peek with
  | some (.anchor name) =>
    skip
    return some name
  | _ => return none

/-- The handle, if there is one, and the suffix of the tag that comes next, if one does. -/
def tag? : Step (Option (Option (List Char) × List Char)) := do
  match ← peek with
  | some (.tag handle? suffix) =>
    skip
    return some (handle?, suffix)
  | _ => return none

/-- The full name of a tag. -/
def fullName (handle? : Option (List Char)) (suffix : List Char) : Step (List Char) := do
  match handle? with
  | none => return suffix
  | some handle =>
    match (← get).handles.lookup handle with
    | some stem => return stem ++ suffix
    | none => throw .malformed

/-- The properties that come next, in either order. -/
def properties : Step Properties := do
  let early? ← anchor?
  let written? ← tag?
  let late? ← if early?.isSome then pure none else anchor?
  let name? ← written?.mapM fun (handle?, suffix) => fullName handle? suffix
  return ⟨early?.or late?, name?⟩

namespace Properties

/-- The kind of a node that looks like `tag`. -/
def kind (p : Properties) (tag : Tag) : Tag :=
  match p.tag? with
  | none => tag
  | some name => if name = ['!'] then tag else Tag.ofName name

/-- The kind of a scalar. -/
def scalarKind (p : Properties) (cs : List Char) (isPlain : Bool) : Tag :=
  p.kind (if isPlain || p.tag?.isSome then Tag.ofPlain cs else .text)

end Properties

/-! ## Anchors -/

/-- Fails if an anchor is taken already. -/
def requireFree (p : Properties) : Step Unit := do
  match p.anchor? with
  | none => return
  | some name => if ((← get).anchors.lookup name).isSome then throw .malformed

/-- Puts a node behind an anchor, if there is one. -/
def attach (p : Properties) (n : Node) : Step Unit :=
  match p.anchor? with
  | none => return
  | some name => modify fun r => { r with anchors := (name, n) :: r.anchors }

/-- A scalar with properties. -/
def scalarNode (p : Properties) (cs : List Char) (isPlain : Bool) : Step Node := do
  requireFree p
  let n := Node.ofText (p.scalarKind cs isPlain) cs
  attach p n
  return n

/-- A list with properties. -/
def listNode (p : Properties) (items : Step (List Node)) : Step Node := do
  requireFree p
  attach p (Node.ofItems (p.kind .list) [])
  let n := Node.ofItems (p.kind .list) (← items)
  attach p n
  return n

/-- A table with properties. -/
def tableNode (p : Properties) (entries : Step (List (Node × Node))) : Step Node := do
  requireFree p
  attach p (Node.ofEntries (p.kind .table) [])
  let n := Node.ofEntries (p.kind .table) (← entries)
  attach p n
  return n

/-! ## Nodes -/

/-- Where a node is read: between brackets; outside of them; or as a key or value outside of
them, where a list need not be indented. -/
inductive Place
  | flow
  | block
  | entry
deriving DecidableEq

/-- Reads a node unless one of the given tokens comes next, which means an empty node. -/
def orEmpty (stops : List Token) (node : Step Node) : Step Node := do
  match ← peek with
  | some t => if t ∈ stops then return .empty else node
  | none => node

/-- Reads what stands behind a colon, if a colon comes next, and is an empty node if not. -/
def behindColon (stops : List Token) (node : Step Node) : Step Node := do
  if ← accept .value then orEmpty stops node else return .empty

mutual

/-- The node that comes next. -/
def node : (fuel : Nat) → Place → Step Node
  | 0, _ => throw .malformed
  | fuel + 1, place => do
    match ← peek with
    | some (.reference name) =>
      skip
      match (← get).anchors.lookup name with
      | some n => return n
      | none => throw .malformed
    | _ =>
      let p ← properties
      content fuel place p

/-- What stands behind properties. -/
def content : (fuel : Nat) → Place → Properties → Step Node
  | 0, _, _ => throw .malformed
  | fuel + 1, place, p => do
    match ← peek, place with
    | some .dash, .entry => listNode p (looseItems fuel)
    | some (.scalar cs isPlain), _ =>
      skip
      scalarNode p cs isPlain
    | some .openList, _ =>
      skip
      listNode p (flowItems fuel true)
    | some .openTable, _ =>
      skip
      tableNode p (flowEntries fuel true)
    | some .listStart, .block | some .listStart, .entry =>
      skip
      listNode p (blockItems fuel)
    | some .tableStart, .block | some .tableStart, .entry =>
      skip
      tableNode p (blockEntries fuel)
    | _, _ =>
      if p.anchor?.isNone && p.tag?.isNone then unexpected else scalarNode p [] true

/-- The items of a list outside of brackets. -/
def blockItems : (fuel : Nat) → Step (List Node)
  | 0 => throw .malformed
  | fuel + 1 => do
    if ← accept .dash then
      let item ← orEmpty [.dash, .blockEnd] (node fuel .block)
      return item :: (← blockItems fuel)
    else
      expect .blockEnd
      return []

/-- The items of a list that is not indented. -/
def looseItems : (fuel : Nat) → Step (List Node)
  | 0 => throw .malformed
  | fuel + 1 => do
    if ← accept .dash then
      let item ← orEmpty [.dash, .key, .value, .blockEnd] (node fuel .block)
      return item :: (← looseItems fuel)
    else return []

/-- The entries of a table outside of brackets. -/
def blockEntries : (fuel : Nat) → Step (List (Node × Node))
  | 0 => throw .malformed
  | fuel + 1 => do
    if ← accept .key then
      let stops := [.key, .value, .blockEnd]
      let k ← orEmpty stops (node fuel .entry)
      let v ← behindColon stops (node fuel .entry)
      return (k, v) :: (← blockEntries fuel)
    else
      expect .blockEnd
      return []

/-- The items of a list between brackets. -/
def flowItems : (fuel : Nat) → (isFirst : Bool) → Step (List Node)
  | 0, _ => throw .malformed
  | fuel + 1, isFirst => do
    if ← accept .closeList then return []
    if !isFirst then expect .comma
    if ← accept .closeList then return []
    if ← accept .key then
      let stops := [.comma, .closeList]
      let k ← orEmpty (.value :: stops) (node fuel .flow)
      let v ← behindColon stops (node fuel .flow)
      return Node.ofEntries .table [(k, v)] :: (← flowItems fuel false)
    else
      let item ← node fuel .flow
      return item :: (← flowItems fuel false)

/-- The entries of a table between brackets. A node that is no key has no value. -/
def flowEntries : (fuel : Nat) → (isFirst : Bool) → Step (List (Node × Node))
  | 0, _ => throw .malformed
  | fuel + 1, isFirst => do
    if ← accept .closeTable then return []
    if !isFirst then expect .comma
    if ← accept .closeTable then return []
    if ← accept .key then
      let stops := [.comma, .closeTable]
      let k ← orEmpty (.value :: stops) (node fuel .flow)
      let v ← behindColon stops (node fuel .flow)
      return (k, v) :: (← flowEntries fuel false)
    else
      let k ← node fuel .flow
      return (k, .empty) :: (← flowEntries fuel false)

end

/-! ## Documents -/

/-- Passes over marks that end a document. -/
def skipEnds : (fuel : Nat) → Step Unit
  | 0 => return
  | fuel + 1 => do
    if ← accept .documentEnd then skipEnds fuel

/-- Reads the directives in front of a document. There is one version at most, and it is the
first one. -/
def directives (hasVersion : Bool) : (fuel : Nat) → Step Unit
  | 0 => return
  | fuel + 1 => do
    match ← peek with
    | some (.directive d) =>
      skip
      match d with
      | .version major =>
        if hasVersion || major ≠ 1 then throw .malformed
        directives true fuel
      | .handle name expansion =>
        if ((← get).handles.lookup name).isSome then throw .malformed
        modify fun r => { r with handles := (name, expansion) :: r.handles }
        directives hasVersion fuel
      | .other => directives hasVersion fuel
    | _ => return

/-- Reads what stands in front of a mark at the start of a document. -/
def header (fuel : Nat) : Step Unit := do
  modify fun r => { r with handles := [] }
  directives false fuel
  modify fun r => { r with handles := r.handles ++ standardHandles }

/-- The node of a document with a mark at its start. -/
def markedDocument (fuel : Nat) : Step Node := do
  header fuel
  expect .documentStart
  match ← peek with
  | none => return .empty
  | some (.directive _) => return .empty
  | some .documentStart => return .empty
  | some .documentEnd => return .empty
  | some _ => node fuel .block

/-- The node of the only document, which is empty if there is none. What stands behind the
document and does not end it is a fault. -/
def document (fuel : Nat) : Step Node := do
  let n ← match ← peek with
    | none => return .empty
    | some (.directive _) => markedDocument fuel
    | some .documentStart => markedDocument fuel
    | some _ => node fuel .block
  skipEnds fuel
  match ← peek with
  | none => return n
  | some _ =>
    header fuel
    unexpected

end Reading

/-- The node that tokens are read as. No step of reading goes further down than three times
the number of tokens. -/
def Node.ofTokens (ts : List Token) : Except Fault Node :=
  (Reading.document (3 * ts.length + 3)).run' ⟨ts, [], Reading.standardHandles⟩

end PushFitness.Yaml
