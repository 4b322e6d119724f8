import PushFitness.Settings.Yaml.Character
import PushFitness.Settings.Yaml.Token

/-!
# Names and tags

An anchor names the value behind it and a reference stands for that value. A tag says
of what kind a value is: in full between angles, or as a handle, which a directive may
explain, and a suffix.
-/

namespace PushFitness.Yaml

/-- The name at the front. -/
def nameRun (cells : List Cell) : Except Fault (List Char × List Cell) :=
  let (name, rest) := spanChars isNameChar cells
  if name.isEmpty then malformed else .ok (name, rest)

/-- The name of an anchor or a reference, whose mark is in front. -/
def anchorName (cells : List Cell) : Except Fault (List Char × List Cell) := do
  let (name, rest) ← nameRun cells
  if atBlank rest || nextIs (· ∈ ['?', ':', ',', ']', '\x7d', '%', '@', '\x60']) rest then
    return (name, rest)
  else malformed

/-! ## Tags -/

/-- Characters that stand for themselves in a tag. -/
def isUriChar (c : Char) : Bool :=
  c.isAlphanum || c ∈ "-;/?:@&=+$,_.!~*'()[]".toList

/-- The bytes at the front, each a percent sign and two digits. -/
def uriBytes : List Cell → Except Fault (List UInt8 × List Cell)
  | ⟨'%', _⟩ :: a :: b :: cells =>
    match hexNumber? a b with
    | some n => (uriBytes cells).map fun (bs, rest) => (UInt8.ofNat n :: bs, rest)
    | none => malformed
  | ⟨'%', _⟩ :: _ => malformed
  | cells => .ok ([], cells)
where
  hexNumber? (a b : Cell) : Option Nat := do
    return 16 * (← hexValue? a.char) + (← hexValue? b.char)

/-- The text at the front in which percent signs stand for bytes, in at most `fuel` steps.
Every step takes a character. -/
def uriRun : (fuel : Nat) → List Cell → Except Fault (List Char × List Cell)
  | 0, cells => .ok ([], cells)
  | _, [] => .ok ([], [])
  | fuel + 1, c :: cells =>
    if c.char = '%' then
      match uriBytes (c :: cells) with
      | .error f => .error f
      | .ok (bs, rest) =>
        match String.fromUTF8? ⟨bs.toArray⟩ with
        | some text => (uriRun fuel rest).map fun (cs, rest) => (text.toList ++ cs, rest)
        | none => malformed
    else if isUriChar c.char then (uriRun fuel cells).map fun (cs, rest) => (c.char :: cs, rest)
    else .ok ([], c :: cells)

/-- The text at the front in which percent signs stand for bytes, if there is one. -/
def uri (fuel : Nat) (cells : List Cell) : Except Fault (List Char × List Cell) := do
  let (cs, rest) ← uriRun fuel cells
  if cs.isEmpty then malformed else return (cs, rest)

/-- The handle at the front: an exclamation mark, or a name between two. -/
def handle : List Cell → Except Fault (List Char × List Cell)
  | ⟨'!', _⟩ :: cells =>
    if !cells.isEmpty && nextIs (· = ' ') cells then .ok (['!'], cells)
    else
      let (name, rest) := spanChars isNameChar cells
      match rest with
      | ⟨'!', _⟩ :: rest => .ok ('!' :: name ++ ['!'], rest)
      | _ => malformed
  | _ => malformed

/-- A tag: its handle, if it has one, and what stands behind it. -/
structure TagName where
  handle? : Option (List Char)
  suffix : List Char

/-- Whether an exclamation mark stands in front of the next gap. -/
def hasHandle : List Cell → Bool
  | [] => false
  | c :: cells =>
    if c.char = ' ' || isBreak c.char then false else c.char = '!' || hasHandle cells

/-- The tag whose exclamation mark is in front, up to the gap that has to follow. -/
def tagName (fuel : Nat) (mark : Cell) (cells : List Cell) :
    Except Fault (TagName × List Cell) := do
  let (name, rest) ← match cells with
    | ⟨'<', _⟩ :: cells => do
      match ← uri fuel cells with
      | (text, ⟨'>', _⟩ :: rest) => pure (⟨none, text⟩, rest)
      | _ => malformed
    | _ =>
      if atBlank cells then pure (⟨none, ['!']⟩, cells)
      else do
        let (name, rest) ← if hasHandle cells then handle (mark :: cells) else pure (['!'], cells)
        let (suffix, rest) ← uri fuel rest
        pure (TagName.mk (some name) suffix, rest)
  if atGap rest then return (name, rest) else malformed

end PushFitness.Yaml
