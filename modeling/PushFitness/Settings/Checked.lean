import PushFitness.Binary64.Text
import PushFitness.Settings.Value

/-!
# Checking settings

The fields of a table are checked independently and all faults are reported, in the
order in which the fields are asked for. A fault has the path of its field and, when
a rule of this library is broken rather than the kind of the value, a message.
-/

namespace PushFitness

/-- A fault in a field. -/
structure FieldError where
  path : List String
  message? : Option String
deriving DecidableEq

/-- A value, or all faults found on the way to it. -/
abbrev Checked (α : Type) := Except (List FieldError) α

namespace Checked

variable {α β : Type}

/-- Two independent checks; the faults of both are kept. -/
def both : Checked α → Checked β → Checked (α × β)
  | .ok x, .ok y => .ok (x, y)
  | .ok _, .error faults => .error faults
  | .error faults, .ok _ => .error faults
  | .error faults, .error more => .error (faults ++ more)

/-- A fault without a message in the field itself. -/
def wrongKind : Checked α := .error [⟨[], none⟩]

/-- A broken rule in the field itself. -/
def broken (message : String) : Checked α := .error [⟨[], some message⟩]

def ofOption : Option α → Checked α
  | some x => .ok x
  | none => wrongKind

/-- Puts the name of a field in front of the paths of its faults. -/
def under (key : String) (c : Checked α) : Checked α :=
  c.mapError fun faults => faults.map fun f => { f with path := key :: f.path }

end Checked

/-- A table of settings. Of entries with the same key the last one counts, and a key that
is no text counts for nothing. -/
abbrev Table := List (Option String × Setting)

namespace Table

variable {α : Type}

def get? (t : Table) (key : String) : Option Setting := t.reverse.lookup (some key)

/-- A table whose keys are all texts. -/
def ofTexts (entries : List (String × Setting)) : Table :=
  entries.map fun (key, v) => (some key, v)

/-- Whether all keys are texts. -/
def hasTextKeys (t : Table) : Bool := t.all fun (key, _) => key.isSome

/-- A field that may be missing. -/
def field (t : Table) (key : String) (default : α) (check : Setting → Checked α) : Checked α :=
  match t.get? key with
  | none => .ok default
  | some v => (check v).under key

/-- A field that may not be missing. -/
def required (t : Table) (key : String) (check : Setting → Checked α) : Checked α :=
  match t.get? key with
  | none => Checked.wrongKind.under key
  | some v => (check v).under key

end Table

/-! ## Kinds of fields -/

/-- A number of at least one. -/
abbrev Positive := { n : Nat // 0 < n }

theorem Positive.pos (n : Positive) : 0 < n.1 := n.2

namespace Setting

def positive (v : Setting) : Checked Positive :=
  match v.int? with
  | none => .wrongKind
  | some n =>
    if h : 0 < n.toNat then .ok ⟨n.toNat, h⟩ else .broken "Value must be >= 1"

/-- A double above zero, infinity included. -/
def positiveDouble (v : Setting) : Checked { x : Binary64 // Binary64.zero.lt x = true } :=
  match v.float? with
  | none => .wrongKind
  | some x =>
    if h : Binary64.zero.lt x = true then .ok ⟨x, h⟩
    else .broken ("empty_stack_error must be > 0, got " ++ x.text)

/-- A value, or nothing where the document says so. -/
def orNull {α : Type} (get? : Setting → Option α) : Setting → Checked (Option α)
  | null => .ok none
  | v => .ofOption ((get? v).map some)

/-- A table with fields of its own. -/
def nested {α : Type} (check : Table → Checked α) : Setting → Checked α
  | table entries => check entries
  | _ => .wrongKind

end Setting

end PushFitness
