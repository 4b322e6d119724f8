import PushFitness.Proofs.Binary64.SumRange
import PushFitness.Proofs.Fitness.Average

/-!
# When errors have an average

No average is larger than the largest of its errors. But it is formed of their sum, and the sum
of finite errors may be beyond the row: the largest double twice has no average, although that
would be the largest double again (`largest_twice_has_no_average`).

Nothing else can go wrong with errors that are numbers. There is an average if the sizes of the
errors add up to the largest double or to less, and there is none if their exact sum rounds to an
infinity. In the half step between these it depends on the order of the errors.
-/

namespace PushFitness

open Binary64 (largest totalUnits sum? canSum canSum_of_le_largest isFinite_iff isFinite_sum?)
open Magnitude (overflow)

variable {errors : List Binary64}

/-- Finite errors whose sizes add up to a number in the row have a finite average. -/
theorem exists_average_of_le (hnonempty : errors ≠ []) (h : ∀ e ∈ errors, e.isFinite = true)
    (hrange : totalUnits (errors.map .abs) ≤ largest.units) :
    ∃ x, averageError errors = .ok x ∧ x.isFinite = true ∧ x.NonNegative := by
  have hcan := canSum_of_le_largest (sizes_nonneg h) hrange
  obtain ⟨s, hs⟩ : ∃ s, sum? (errors.map .abs) = some s := by
    rw [sum?, hcan]
    exact ⟨_, rfl⟩
  obtain ⟨q, hq, hfinite⟩ := averageError_of_sum hnonempty h hs
  refine ⟨_, hq, ?_, Binary64.nonNegative_signed q⟩
  rw [Binary64.isFinite, hfinite, Bool.not_false]

/-- Finite errors whose sizes add up to more than the row have none. -/
theorem no_average_of_overflow (hnonempty : errors ≠ []) (h : ∀ e ∈ errors, e.isFinite = true)
    (hbeyond : overflow ≤ totalUnits (errors.map .abs)) :
    averageError errors = .error .sumOverflow := by
  rw [averageError_of_finite hnonempty h]
  cases hs : sum? (errors.map .abs) with
  | none => rfl
  | some s =>
      obtain ⟨hfinite, rfl⟩ := isFinite_sum? (fun y hy => (sizes_nonneg h y hy).1) hs
      rw [Binary64.isFinite_round] at hfinite
      have hle := le_abs_self (totalUnits (errors.map .abs))
      omega

/-- Errors that are numbers have an average that is a number and not negative, or their sum
overflows. It does not if one of them is infinite, and the average is infinite then. It does not
either if the sizes of finite errors add up to no more than the largest double, and the average is
finite then. It does if the exact sum of the sizes rounds to an infinity. -/
theorem averages_exist_in_range (hnonempty : errors ≠ []) (hnan : ∀ e ∈ errors, e.isNaN = false) :
    ((∃ x, averageError errors = .ok x ∧ x.NonNegative) ∨
      averageError errors = .error .sumOverflow) ∧
    ((∃ e ∈ errors, e.isInfinite = true) → averageError errors = .ok .infinity) ∧
    ((∀ e ∈ errors, e.isFinite = true) →
      (totalUnits (errors.map .abs) ≤ largest.units →
        ∃ x, averageError errors = .ok x ∧ x.isFinite = true ∧ x.NonNegative) ∧
      (overflow ≤ totalUnits (errors.map .abs) → averageError errors = .error .sumOverflow)) := by
  refine ⟨?_, averageError_of_infinite, fun h => ⟨exists_average_of_le hnonempty h,
    no_average_of_overflow hnonempty h⟩⟩
  cases haverage : averageError errors with
  | ok x => exact .inl ⟨x, rfl, (averageError_eq_ok hnan haverage).1⟩
  | error err =>
      right
      by_cases hinfinite : ∃ e ∈ errors, e.isInfinite = true
      · rw [averageError_of_infinite hinfinite] at haverage
        cases haverage
      · rw [averageError_of_finite hnonempty (finite_of_numbers hnan hinfinite)] at haverage
        cases hs : sum? (errors.map .abs) with
        | none =>
            rw [hs] at haverage
            exact haverage.symm
        | some s =>
            rw [hs] at haverage
            cases haverage

/-- Errors whose sizes just add up to the largest double. -/
def largestErrors : List Binary64 := [largest.neg, .zero]

theorem averages_exist_in_range_largest : largestErrors ≠ [] ∧
    (∀ e ∈ largestErrors, e.isFinite = true ∧ e.isNaN = false) ∧
    totalUnits (largestErrors.map .abs) ≤ largest.units ∧
    ∃ x, averageError largestErrors = .ok x ∧ x.isFinite = true ∧ x.NonNegative := by
  have hnonempty : largestErrors ≠ [] := by decide
  have hnumbers : ∀ e ∈ largestErrors, e.isFinite = true ∧ e.isNaN = false := by decide
  have hrange : totalUnits (largestErrors.map .abs) ≤ largest.units := by
    have hsum : totalUnits (largestErrors.map .abs) = largest.units + 0 := rfl
    rw [hsum, add_zero]
  obtain ⟨-, -, hfinite⟩ :=
    averages_exist_in_range hnonempty fun e he => (hnumbers e he).2
  exact ⟨hnonempty, hnumbers, hrange, (hfinite fun e he => (hnumbers e he).1).1 hrange⟩

/-- The largest double twice: finite errors without an average. -/
theorem largest_twice_has_no_average :
    averageError [largest, largest] = .error .sumOverflow := by decide +kernel

end PushFitness
