import PushFitness.Binary64.Basic

/-!
# Sums rounded once

The sum of finitely many finite doubles is an integer in units, so it is known
exactly and rounded at the end. Whether it can be formed at all depends on the way
there. On the way the sum so far is kept as partial sums, none of which overlaps
another, the smallest first. A summand is added to the first of them, the rounded
result to the next, and so on, and each time what rounding has cut off stays behind
as a partial sum. The summation fails when such a result is infinite.

A summand that is not a number makes the sum not a number, and the partial sums
start again behind it.
-/

namespace PushFitness.Binary64

/-- Adds a double to partial sums: what rounding cuts off on the way, and the double in
which the summation ends. -/
def absorb (x : Binary64) : List Binary64 → List Binary64 × Binary64
  | [] => ([], x)
  | y :: partials =>
    let (large, small) := if x.abs.lt y.abs then (y, x) else (x, y)
    let sum := large.add small
    let cut := small.sub (sum.sub large)
    let (cuts, last) := absorb sum partials
    (if cut.isZero then cuts else cut :: cuts, last)

/-- Adds the doubles to partial sums one after the other. There is no result when one of
them, being a number, ends in an infinity. -/
def absorbAll? (partials : List Binary64) : List Binary64 → Option (List Binary64)
  | [] => some partials
  | x :: xs =>
    let (cuts, last) := absorb x partials
    if last.isFinite then absorbAll? (if last.isZero then cuts else cuts ++ [last]) xs
    else if x.isFinite then none
    else absorbAll? [] xs

/-- Whether the summation of doubles comes to an end. -/
def canSum (xs : List Binary64) : Bool := (absorbAll? [] xs).isSome

/-- What finite doubles are worth together, in units. -/
def totalUnits (xs : List Binary64) : Int := (xs.map units).foldr (· + ·) 0

/-- The sum of doubles none of which is infinite, rounded once. -/
def sum? (xs : List Binary64) : Option Binary64 :=
  if !canSum xs then none
  else some (if xs.any isNaN then nan else round (totalUnits xs) 1)

end PushFitness.Binary64
