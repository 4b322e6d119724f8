import PushFitness.Settings.Yaml.Scalar

/-!
# Nodes of a document

A document is a tree of nodes, each of some kind. A node is made together with its
value, so that one that is referred to many times is valued once.

Not every node has a value. Where several faults are found the one nearest to the root
is reported, and of those equally near the first. The value of a scalar is at the level
of its node, and those of its items or entries are one level below a collection.
-/

namespace PushFitness.Yaml

/-- A fault in a node, and how far below the node it lies. -/
structure DeepFault where
  level : Nat
  fault : Fault

/-- A value, or the fault that is reported instead. -/
abbrev Valued (α : Type) := Except DeepFault α

namespace Valued

variable {α β : Type}

/-- A value or a fault of the node itself. -/
def here : Except Fault α → Valued α := Except.mapError fun f => ⟨0, f⟩

/-- A fault one level below the node. -/
def brokenBelow : Valued α := .error ⟨1, .malformed⟩

/-- A value one level below the node. -/
def below : Valued α → Valued α := Except.mapError fun f => { f with level := f.level + 1 }

/-- Two values, or the fault that is reported first. -/
def both : Valued α → Valued β → Valued (α × β)
  | .ok x, .ok y => .ok (x, y)
  | .ok _, .error g => .error g
  | .error f, .ok _ => .error f
  | .error f, .error g => .error (if g.level < f.level then g else f)

/-- Values, or the fault that is reported first. -/
def all : List (Valued α) → Valued (List α)
  | [] => .ok []
  | x :: xs => (both x (all xs)).map fun (y, ys) => y :: ys

end Valued

/-- A node. A reference to a collection from within finds that collection empty. -/
inductive Node
  | scalar (tag : Tag) (text : List Char) (value : Valued Setting)
  | list (tag : Tag) (items : List Node) (value : Valued Setting)
  | table (tag : Tag) (entries : List (Node × Node)) (value : Valued Setting)

namespace Node

def tag : Node → Tag
  | scalar tag _ _ => tag
  | list tag _ _ => tag
  | table tag _ _ => tag

def value : Node → Valued Setting
  | scalar _ _ v => v
  | list _ _ v => v
  | table _ _ v => v

/-- The text that a node counts as where a scalar is asked for. -/
def scalarText? : Node → Option (List Char)
  | scalar _ cs _ => some cs
  | list _ _ _ => none
  | table _ entries _ =>
    match entries.find? fun (key, _) => key.tag = .value with
    | some (_, scalar _ cs _) => some cs
    | _ => none

/-! ## Scalars -/

/-- The scalar of some kind with a text. -/
def ofText (tag : Tag) (cs : List Char) : Node :=
  scalar tag cs <|
    match tag with
    | .list | .table | .keySet | .orderedTable | .pairs => Valued.brokenBelow
    | _ => Valued.here (scalarValue tag cs)

/-- What stands where nothing is written. -/
def empty : Node := ofText .null []

/-! ## Lists -/

/-- The value of the only entry of a table. -/
def singleEntry : Node → Valued Setting
  | table _ [(key, v)] _ => (Valued.both key.value v.value).map fun (k, v) => .list [k, v]
  | _ => Valued.here malformed

/-- The list of some kind with items. -/
def ofItems (tag : Tag) (items : List Node) : Node :=
  let listed (values : List (Valued Setting)) : Valued Setting :=
    (Valued.all values).below.map .list
  list tag items <|
    match tag with
    | .list => listed (items.map value)
    | .orderedTable | .pairs => listed (items.map singleEntry)
    | .table | .keySet => Valued.brokenBelow
    | _ => Valued.here malformed

/-! ## Tables -/

/-- The entries that a table takes over from a value: those of a table, or of all tables in
a list, the first table last so that its entries count. -/
def mergedEntries? : Node → Option (List (Node × Node))
  | table _ entries _ => some entries
  | list _ items _ => do
    let each ← items.mapM fun item =>
      match item with
      | table _ entries _ => some entries
      | _ => none
    return each.reverse.flatten
  | scalar _ _ _ => none

/-- Entries with those that are taken over in front. -/
def withMerged? (entries : List (Node × Node)) : Option (List (Node × Node)) := do
  let isMerge (e : Node × Node) : Bool := e.1.tag = .merge
  let merged ← (entries.filter isMerge).mapM fun (_, v) => v.mergedEntries?
  return merged.flatten ++ entries.filter (!isMerge ·)

/-- The text that a node is as a key, if it is one. A collection cannot be a key. -/
def keyText : Node → Valued (Option String)
  | scalar .value cs _ => .ok (some (String.ofList cs))
  | node =>
    match node.value with
    | .ok (.text s) => .ok (some s)
    | .ok (.list _) | .ok (.table _) | .ok (.keySet _) => Valued.here malformed
    | .ok _ => .ok none
    | .error f => if f.level = 0 then .error f else Valued.here malformed

/-- The value of a table with entries. -/
def tableValue (entries : List (Node × Node)) : Valued (List (Option String × Setting)) :=
  (Valued.all (entries.map fun (key, v) => Valued.both key.keyText v.value)).below

/-- The table of some kind with entries. -/
def ofEntries (tag : Tag) (entries : List (Node × Node)) : Node :=
  match withMerged? entries with
  | none =>
    table tag entries (if tag = .unknown then Valued.here malformed else Valued.brokenBelow)
  | some merged =>
    table tag merged <|
      match tag with
      | .table => (tableValue merged).map .table
      | .keySet => (tableValue merged).map fun es => .keySet (es.map (·.1))
      | .list | .orderedTable | .pairs => Valued.brokenBelow
      | _ =>
        match (table tag entries Valued.brokenBelow).scalarText? with
        | some cs => Valued.here (scalarValue tag cs)
        | none => Valued.here malformed

end Node

end PushFitness.Yaml
