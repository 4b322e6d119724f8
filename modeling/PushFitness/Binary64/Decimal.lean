import PushFitness.Binary64.Basic

/-!
# Doubles and decimal numbers

A decimal is a natural number times a power of ten. Reading one rounds it to
the nearest magnitude, once. Writing a magnitude looks for the fewest digits
that read back as it: with one digit, then two, up to seventeen, the two
decimals on either side of the magnitude are read, and the first hit is
written, the nearer one if both hit, and of two equally near the even one.

Every decimal that is written has therefore been read back before. Seventeen
digits are always enough; should none of the seventeen grids hit, all digits of
the magnitude are written, which read back because nothing is rounded.
-/

namespace PushFitness

/-- The number `coefficient * 10 ^ exponent`. -/
structure Decimal where
  coefficient : Nat
  exponent : Int
deriving DecidableEq

namespace Decimal

open Magnitude (unitsPerOne nearest)

/-- A power of ten; one if the exponent is negative. -/
def tenTo (exponent : Int) : Nat := Nat.pow 10 exponent.toNat

/-- The magnitude nearest to a decimal. Numbers from `10 ^ 310` on are infinite and
numbers below `10 ^ -400` are zero, whatever their digits, so an exponent of any
size is read at once. -/
def toMagnitude (d : Decimal) : Magnitude :=
  if d.coefficient = 0 then .zero
  else if 310 < d.exponent then .infinity
  else if d.exponent + d.coefficient.log2 < -400 then .zero
  else nearest (d.coefficient * tenTo d.exponent * unitsPerOne) (tenTo (-d.exponent))

/-- The same number with a coefficient that does not end in zero. At most `fuel`
zeros are taken off. -/
def trim (fuel : Nat) (d : Decimal) : Decimal :=
  match fuel with
  | 0 => d
  | fuel + 1 =>
    if d.coefficient ≠ 0 ∧ d.coefficient % 10 = 0 then
      trim fuel ⟨d.coefficient / 10, d.exponent + 1⟩
    else d

/-- The digits of the coefficient, the first one first. -/
def digits (d : Decimal) : List Char := Nat.toDigits 10 d.coefficient

end Decimal

namespace Magnitude

open Decimal (tenTo)

/-- The multiple of `10 ^ exponent` next below a magnitude, counted in that power. -/
def gridBelow (m : Magnitude) (exponent : Int) : Nat :=
  m.units * tenTo (-exponent) / (unitsPerOne * tenTo exponent)

/-- A magnitude's place in its step of the grid: less than, equal to or greater than
the middle of the step. -/
def compareToMiddle (m : Magnitude) (exponent : Int) : Ordering :=
  let middle := m.gridBelow exponent * 2 + 1
  compare (m.units * 2 * tenTo (-exponent)) (middle * (unitsPerOne * tenTo exponent))

/-- The power of ten of the first digit of a magnitude. A power of two has the
logarithm 0.30103 in base ten to within the precision needed here, so one
comparison decides between that estimate and its successor. -/
def leadingExponent (m : Magnitude) : Int :=
  let low := ((m.units.log2 : Int) - unitExponent) * 30103 / 100000
  if m.gridBelow (low + 1) = 0 then low else low + 1

/-- The multiple of `10 ^ exponent` that reads back as the magnitude, if there is one:
the neighbour below or the neighbour above, the nearer if both do, and in the
middle the one with an even coefficient. -/
def decimalAt? (m : Magnitude) (exponent : Int) : Option Decimal :=
  let below : Decimal := ⟨m.gridBelow exponent, exponent⟩
  let above : Decimal := ⟨m.gridBelow exponent + 1, exponent⟩
  let upwards := match m.compareToMiddle exponent with
    | .lt => false
    | .eq => below.coefficient % 2 = 1
    | .gt => true
  let ordered := if upwards then [above, below] else [below, above]
  ordered.find? fun d => d.toMagnitude = m

/-- All digits of a finite magnitude. -/
def exactDecimal (m : Magnitude) : Decimal :=
  ⟨m.units * Nat.pow 5 unitExponent, -(unitExponent : Int)⟩

/-- The decimal with the fewest digits that reads back as the magnitude. -/
def shortestDecimal (m : Magnitude) : Decimal :=
  let first := m.leadingExponent
  let found := (List.range 17).findSome? fun (n : Nat) => m.decimalAt? (first - n)
  (found.getD m.exactDecimal).trim 2000

end Magnitude

end PushFitness
