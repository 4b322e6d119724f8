import PushFitness.Fitness.Average
import PushFitness.Proofs.Binary64.Sum

/-!
# The average is a number

An average is formed of a sum and a division, and either could spoil it. The sum is finite if
it ends (`isFinite_sum?`), and it is not negative, since its summands are not. The divisor is
the rounding of a count. It is one at least, so the quotient does not leave the row again; and
if the count is so large that it rounds to infinity, the quotient is zero.

This leaves the one case that is asked for first. The average is infinite if and only if some
error is.
-/

namespace PushFitness

/-! ## The rounding of a count -/

namespace Magnitude

/-- How many runs of the row end below one. -/
def runsBelowOne : Nat := 1022

/-- The number one. -/
def one : Magnitude := ⟨(runsBelowOne + 1) * runLength, by decide⟩

theorem units_one : one.units = unitsPerOne := by
  have hexponent : unitExponent = 52 + runsBelowOne := rfl
  show unitsAt ((runsBelowOne + 1) * runLength + 0) = unitsPerOne
  rw [unitsAt_run _ (by decide), unitsPerOne_eq, hexponent, Nat.pow_add, Nat.add_zero,
    runLength_eq]

theorem unitsPerOne_pos : 0 < unitsPerOne := by
  rw [unitsPerOne_eq]
  exact Nat.two_pow_pos unitExponent

theorem units_mono {a b : Magnitude} (h : a.place ≤ b.place) : a.units ≤ b.units :=
  unitsAt_strictMono.monotone h

/-- What is one or more is rounded to one or more. -/
theorem unitsPerOne_le_nearest {n : Nat} (h : unitsPerOne ≤ n) :
    unitsPerOne ≤ (nearest n 1).units := by
  have hplace : one.place ≤ (nearest n 1).place :=
    le_nearest Nat.one_pos (by rwa [units_one, Nat.mul_one])
  calc unitsPerOne
      = one.units := units_one.symm
    _ ≤ (nearest n 1).units := units_mono hplace

/-- A count as a magnitude. -/
def ofCount (n : Nat) : Magnitude := nearest (n * unitsPerOne) 1

theorem unitsPerOne_le_ofCount {n : Nat} (hn : 0 < n) : unitsPerOne ≤ (ofCount n).units :=
  unitsPerOne_le_nearest (Nat.le_mul_of_pos_left _ hn)

theorem units_ofCount_pos {n : Nat} (hn : 0 < n) : 0 < (ofCount n).units :=
  Nat.lt_of_lt_of_le unitsPerOne_pos (unitsPerOne_le_ofCount hn)

/-- A magnitude divided by a count. Nothing is left if the count is rounded to infinity. -/
def divCount (m : Magnitude) (n : Nat) : Magnitude :=
  if (ofCount n).isInfinite then zero else nearest (m.units * unitsPerOne) (ofCount n).units

/-- A quotient by a count stands no higher in the row than the dividend. -/
theorem divCount_le (m : Magnitude) {n : Nat} (hn : 0 < n) : (m.divCount n).place ≤ m.place := by
  rw [divCount]
  split
  · exact Nat.zero_le _
  · exact nearest_le (units_ofCount_pos hn) (Nat.mul_le_mul_left _ (unitsPerOne_le_ofCount hn))

theorem isInfinite_divCount {m : Magnitude} (hm : m.isInfinite = false) {n : Nat} (hn : 0 < n) :
    (m.divCount n).isInfinite = false := by
  have hplace := m.divCount_le hn
  rw [← Bool.not_eq_true, isInfinite_iff] at hm ⊢
  omega

end Magnitude

namespace Binary64

open Magnitude (unitsPerOne nearest)

theorem ofInt_natCast (n : Nat) : ofInt n = signed false (.ofCount n) := by
  have hcast : ((n : Int) * unitsPerOne) = ((n * unitsPerOne : Nat) : Int) :=
    (Nat.cast_mul _ _).symm
  have hsign : ¬((n * unitsPerOne : Nat) : Int) < 0 := Int.not_lt.mpr (Int.natCast_nonneg _)
  rw [ofInt, round, hcast, Int.natAbs_natCast, decide_eq_false hsign, Magnitude.ofCount]

theorem div_ofInt {m : Magnitude} (hm : m.isInfinite = false) {n : Nat} (hn : 0 < n) :
    (signed false m).div (ofInt n) = signed false (m.divCount n) := by
  have hzero : (Magnitude.ofCount n).isZero = false := by
    refine decide_eq_false fun hzero => ?_
    have hpos := Magnitude.units_ofCount_pos hn
    rw [hzero] at hpos
    exact Nat.lt_irrefl 0 hpos
  rw [ofInt_natCast, Magnitude.divCount]
  simp only [div, hm, hzero, Bool.false_eq_true, if_false, bne_self_eq_false]
  split <;> rfl

theorem isFinite_iff {x : Binary64} :
    x.isFinite = true ↔ x.isNaN = false ∧ x.isInfinite = false := by
  cases x <;> simp [isFinite, isNaN, isInfinite]

/-! ## The sum of sizes -/

theorem isFinite_abs (x : Binary64) : x.abs.isFinite = x.isFinite := by
  cases x <;> rfl

theorem units_abs_nonneg (x : Binary64) : 0 ≤ x.abs.units := by
  cases x with
  | nan => exact Int.le_refl 0
  | signed s m => exact Int.natCast_nonneg _

theorem totalUnits_abs_nonneg (xs : List Binary64) : 0 ≤ totalUnits (xs.map abs) :=
  totalUnits_nonneg (List.forall_mem_map.mpr fun x _ => units_abs_nonneg x)

theorem round_of_nonneg {v : Int} (hv : 0 ≤ v) : round v 1 = signed false (nearest v.natAbs 1) := by
  rw [round, decide_eq_false (Int.not_lt.mpr hv)]

/-- The sum of sizes, if there is one, is the exact sum rounded to a finite magnitude. -/
theorem sum?_abs {xs : List Binary64} {s : Binary64} (hxs : ∀ x ∈ xs, x.isFinite = true)
    (h : sum? (xs.map abs) = some s) : ∃ m, s = signed false m ∧ m.isInfinite = false ∧
      round (totalUnits (xs.map abs)) 1 = signed false m := by
  have hsizes : ∀ x ∈ xs.map abs, x.isFinite = true := by
    intro size hsize
    obtain ⟨x, hx, rfl⟩ := List.mem_map.mp hsize
    rw [isFinite_abs]
    exact hxs x hx
  obtain ⟨hfinite, rfl⟩ := isFinite_sum? hsizes h
  have hround := round_of_nonneg (totalUnits_abs_nonneg xs)
  rw [hround] at hfinite
  exact ⟨_, hround, (Bool.not_eq_true' _).mp hfinite, hround⟩

/-- A number, and not below zero. -/
def NonNegative (x : Binary64) : Prop := x.isNaN = false ∧ x.lt .zero = false

theorem nonNegative_signed (m : Magnitude) : (signed false m).NonNegative := by
  refine ⟨rfl, ?_⟩
  show decide ((m.place : Int) < 0) = false
  exact decide_eq_false (by omega)

end Binary64

/-! ## The average -/

variable {errors : List Binary64} {x : Binary64}

theorem finite_of_numbers (hnan : ∀ e ∈ errors, e.isNaN = false)
    (h : ¬ ∃ e ∈ errors, e.isInfinite = true) : ∀ e ∈ errors, e.isFinite = true := by
  intro e he
  refine Binary64.isFinite_iff.mpr ⟨hnan e he, ?_⟩
  exact Bool.eq_false_iff.mpr fun hinfinite => h ⟨e, he, hinfinite⟩

theorem not_infinite_of_finite (h : ∀ e ∈ errors, e.isFinite = true) :
    ¬ ∃ e ∈ errors, e.isInfinite = true := by
  rintro ⟨e, he, hinfinite⟩
  have hfinite := (Binary64.isFinite_iff.mp (h e he)).2
  rw [hinfinite] at hfinite
  cases hfinite

theorem sizes_nonneg (h : ∀ e ∈ errors, e.isFinite = true) :
    ∀ y ∈ errors.map Binary64.abs, y.isFinite = true ∧ 0 ≤ y.units := by
  intro y hy
  obtain ⟨e, he, rfl⟩ := List.mem_map.mp hy
  rw [Binary64.isFinite_abs]
  exact ⟨h e he, Binary64.units_abs_nonneg e⟩

theorem any_isInfinite_abs : (errors.map Binary64.abs).any Binary64.isInfinite = true ↔
    ∃ e ∈ errors, e.isInfinite = true := by
  have habs (e : Binary64) : e.abs.isInfinite = e.isInfinite := by
    cases e <;> rfl
  simp only [List.any_map, List.any_eq_true, Function.comp_apply, habs]

theorem averageError_of_infinite (h : ∃ e ∈ errors, e.isInfinite = true) :
    averageError errors = .ok .infinity := by
  have hnonempty : (errors.map Binary64.abs).isEmpty = false := by
    obtain ⟨e, he, -⟩ := h
    rw [List.isEmpty_map, List.isEmpty_eq_false_iff]
    exact List.ne_nil_of_mem he
  simp only [averageError, hnonempty, any_isInfinite_abs.mpr h]
  rfl

/-- Of finite errors there is an average as soon as there is a sum. -/
theorem averageError_of_finite (hnonempty : errors ≠ []) (h : ∀ e ∈ errors, e.isFinite = true) :
    averageError errors = (Binary64.sum? (errors.map Binary64.abs)).elim (.error .sumOverflow)
      fun s => .ok (s.div (Binary64.ofInt errors.length)) := by
  have hempty : (errors.map Binary64.abs).isEmpty = false := by
    rw [List.isEmpty_map, List.isEmpty_eq_false_iff]
    exact hnonempty
  have hfinite : (errors.map Binary64.abs).any Binary64.isInfinite = false :=
    Bool.eq_false_iff.mpr fun hany => not_infinite_of_finite h (any_isInfinite_abs.mp hany)
  simp only [averageError, hempty, hfinite, List.length_map]
  cases Binary64.sum? (errors.map Binary64.abs) with
  | none => rfl
  | some s => rfl

/-- The average of finite errors, if there is a sum, is a finite magnitude. -/
theorem averageError_of_sum (hnonempty : errors ≠ []) (h : ∀ e ∈ errors, e.isFinite = true)
    {s : Binary64} (hsum : Binary64.sum? (errors.map Binary64.abs) = some s) :
    ∃ q, averageError errors = .ok (.signed false q) ∧ q.isInfinite = false := by
  obtain ⟨m, rfl, hm, -⟩ := Binary64.sum?_abs h hsum
  have hpos := List.length_pos_iff.mpr hnonempty
  refine ⟨m.divCount errors.length, ?_, Magnitude.isInfinite_divCount hm hpos⟩
  rw [averageError_of_finite hnonempty h, hsum, Option.elim_some, Binary64.div_ofInt hm hpos]

theorem nonempty_of_average (h : averageError errors = .ok x) : errors ≠ [] := by
  rintro rfl
  cases h

/-- An average of finite errors is the exact sum of their sizes, rounded, divided by their
number. -/
theorem average_of_finite (hfinite : ∀ e ∈ errors, e.isFinite = true)
    (h : averageError errors = .ok x) : ∃ m : Magnitude, m.isInfinite = false ∧
      Binary64.round (Binary64.totalUnits (errors.map .abs)) 1 = .signed false m ∧
      x = .signed false (m.divCount errors.length) := by
  have hpos := List.length_pos_iff.mpr (nonempty_of_average h)
  rw [averageError_of_finite (nonempty_of_average h) hfinite] at h
  cases hsum : Binary64.sum? (errors.map .abs) with
  | none =>
      rw [hsum] at h
      cases h
  | some s =>
      obtain ⟨m, rfl, hm, hround⟩ := Binary64.sum?_abs hfinite hsum
      rw [hsum] at h
      cases h
      exact ⟨m, hm, hround, Binary64.div_ofInt hm hpos⟩

/-- The average of errors that are numbers is a number and not negative, and an infinite
error is what makes it infinite. -/
theorem averageError_eq_ok (hnan : ∀ e ∈ errors, e.isNaN = false)
    (h : averageError errors = .ok x) :
    x.NonNegative ∧ (x = .infinity ↔ ∃ e ∈ errors, e.isInfinite = true) := by
  by_cases hinfinite : ∃ e ∈ errors, e.isInfinite = true
  · rw [averageError_of_infinite hinfinite] at h
    cases h
    exact ⟨Binary64.nonNegative_signed _, iff_of_true rfl hinfinite⟩
  · obtain ⟨m, hm, -, rfl⟩ := average_of_finite (finite_of_numbers hnan hinfinite) h
    refine ⟨Binary64.nonNegative_signed _, iff_of_false ?_ hinfinite⟩
    have hfinite := Magnitude.isInfinite_divCount hm
      (List.length_pos_iff.mpr (nonempty_of_average h))
    intro hx
    rw [(Binary64.signed.inj hx).2] at hfinite
    cases hfinite

end PushFitness
