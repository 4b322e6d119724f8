/-!
# Magnitudes of double-precision numbers

The non-negative doubles stand in one ascending row: zero, the subnormals, the
normals, infinity. A magnitude is a place in that row, so comparing two of
them is comparing two natural numbers, and the place is also the bit pattern
without its sign.

What a place is worth is counted in units, the least positive double being
one. In units every finite double is a natural number and every exact sum,
product or quotient of doubles is a fraction of natural numbers; rounding
happens in `nearest` and nowhere else.
-/

namespace PushFitness

/-- A place in the ascending row of all non-negative doubles. -/
structure Magnitude where
  place : Nat
  place_le : place ≤ 0x7FF0000000000000
deriving DecidableEq

namespace Magnitude

/-- How often the unit has to be doubled to make one. -/
def unitExponent : Nat := 1074

/-- How many units the number one is worth. -/
def unitsPerOne : Nat := Nat.pow 2 unitExponent

/-- The number `2 ^ 52` of places in a run of equal steps. -/
def runLength : Nat := 0x10000000000000

/-- The last place of the row. -/
def infinity : Magnitude := ⟨0x7FF0000000000000, Nat.le_refl _⟩

def zero : Magnitude := ⟨0, Nat.zero_le _⟩

/-- What a place is worth in units. In the first two runs neighbours are one unit
apart; from there on each run doubles the step. -/
def unitsAt (place : Nat) : Nat :=
  if place < runLength then place
  else (runLength + place % runLength) * Nat.pow 2 (place / runLength - 1)

def units (m : Magnitude) : Nat := unitsAt m.place

/-- The last place that is worth no more than `n` units. -/
def placeBelow (n : Nat) : Nat :=
  (n.log2 - 52) * runLength + n / Nat.pow 2 (n.log2 - 52)

/-- The magnitude nearest to `num / den` units. Halfway between two places the
even one is taken; from halfway between the last finite place and its successor
on the answer is infinity. -/
def nearest (num den : Nat) : Magnitude :=
  let below := placeBelow (num / den)
  let twiceMiddle := (unitsAt below + unitsAt (below + 1)) * den
  let place :=
    if 2 * num < twiceMiddle then below
    else if twiceMiddle < 2 * num then below + 1
    else below + below % 2
  ⟨min place infinity.place, Nat.min_le_right _ _⟩

def isInfinite (m : Magnitude) : Bool := m = infinity

def isZero (m : Magnitude) : Bool := m = zero

end Magnitude

end PushFitness
