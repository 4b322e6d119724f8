import PushFitness.Binary64.Decimal

/-!
# The text of a double

Positional notation from `10 ^ -4` up to below `10 ^ 16`, always with a point and
a digit behind it; scientific notation outside, with a signed exponent of at
least two digits and a point only if a digit follows it.
-/

namespace PushFitness

namespace Decimal

/-- The exponent of ten of the first digit. -/
def firstExponent (d : Decimal) : Int := d.exponent + (d.digits.length - 1)

/-- Positional notation. -/
def positional (d : Decimal) : List Char :=
  let first := d.firstExponent
  if first < 0 then
    ['0', '.'] ++ List.replicate (-first - 1).toNat '0' ++ d.digits
  else
    let whole := d.digits.take (first.toNat + 1)
    let tail := d.digits.drop (first.toNat + 1)
    whole ++ List.replicate (first.toNat + 1 - whole.length) '0' ++ ['.'] ++
      if tail.isEmpty then ['0'] else tail

/-- The exponent behind the `e`: a sign and at least two digits. -/
def exponentChars (e : Int) : List Char :=
  let digits := Nat.toDigits 10 e.natAbs
  (if e < 0 then '-' else '+') :: (if digits.length < 2 then '0' :: digits else digits)

def scientific (d : Decimal) : List Char :=
  match d.digits with
  | [] => []
  | [c] => c :: 'e' :: exponentChars d.firstExponent
  | c :: tail => c :: '.' :: tail ++ 'e' :: exponentChars d.firstExponent

def chars (d : Decimal) : List Char :=
  if -4 ≤ d.firstExponent ∧ d.firstExponent < 16 then d.positional else d.scientific

end Decimal

namespace Magnitude

def chars (m : Magnitude) : List Char :=
  if m.isInfinite then ['i', 'n', 'f']
  else if m.isZero then ['0', '.', '0']
  else m.shortestDecimal.chars

end Magnitude

namespace Binary64

/-- The characters a double is written with. -/
def chars : Binary64 → List Char
  | nan => ['n', 'a', 'n']
  | signed negative m => if negative then '-' :: m.chars else m.chars

def text (x : Binary64) : String := String.ofList x.chars

instance : ToString Binary64 := ⟨text⟩

end Binary64

end PushFitness
