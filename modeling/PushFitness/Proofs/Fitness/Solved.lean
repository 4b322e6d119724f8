import PushFitness.Proofs.Fitness.AverageOrder
import PushFitness.Proofs.Fitness.Scoring
import PushFitness.Proofs.Fitness.Values

/-!
# A fitness of zero

A search stops at a program whose fitness is zero, so that has to mean that the program is right
on every case. Between the results and the fitness lie a difference, two roundings and a division,
and none of them may turn anything but zero into zero.

For integers none does. A difference that is not zero is one or more in size, and stays that when
it is rounded. If the error for a missing result is one or more as well, the sum of the sizes is
zero or at least one, and divided by a count below `2 ^ 53` it does not vanish
(`averageError_eq_zero_iff`).

A result has 32 bits as long as the stacks are shallow. So no program is right on a case whose
expected output has more, and then no fitness is zero.
-/

namespace PushFitness

variable {x : Binary64} {errors : List Binary64}

/-! ## Quotients that do not vanish -/

namespace Magnitude

/-- The number `2 ^ 53`. -/
def countLimit : Magnitude := ⟨(runsBelowOne + 54) * runLength, by decide⟩

theorem units_countLimit : countLimit.units = 2 ^ 53 * unitsPerOne := by
  have hexponent : unitExponent = 52 + runsBelowOne := rfl
  show unitsAt ((runsBelowOne + 53 + 1) * runLength + 0) = 2 ^ 53 * unitsPerOne
  rw [unitsAt_run _ (by decide), unitsPerOne_eq, hexponent, Nat.add_zero, runLength_eq,
    ← Nat.pow_add, ← Nat.pow_add, Nat.add_comm runsBelowOne, Nat.add_left_comm]

theorem ofCount_le {n : Nat} (hn : n < 2 ^ 53) : (ofCount n).place ≤ countLimit.place := by
  apply nearest_le Nat.one_pos
  rw [units_countLimit, Nat.mul_one]
  exact Nat.mul_le_mul_right _ (Nat.le_of_lt hn)

theorem zero_divCount {n : Nat} (hn : 0 < n) : zero.divCount n = zero := by
  have hunits : zero.units = 0 := rfl
  rw [divCount]
  split
  · rfl
  · rw [hunits, Nat.zero_mul, nearest_of_small (units_ofCount_pos hn)]

/-- One or more divided by a count below `2 ^ 53` does not vanish. -/
theorem divCount_pos {m : Magnitude} (hm : unitsPerOne ≤ m.units) {n : Nat} (hn : 0 < n)
    (hcount : n < 2 ^ 53) : 0 < (m.divCount n).place := by
  have hplace := ofCount_le hcount
  have hfinite : ¬ (ofCount n).isInfinite = true := by
    rw [isInfinite_iff]
    exact Nat.not_le_of_lt (Nat.lt_of_le_of_lt hplace (by decide))
  have hone : unitsAt 1 = 1 := unitsAt_of_lt (by decide)
  have hlimit : (2 : Nat) ^ 53 ≤ unitsPerOne := by
    rw [unitsPerOne_eq]
    exact Nat.pow_le_pow_right (by decide) (by decide)
  rw [divCount, if_neg hfinite]
  refine le_nearest (m := ⟨1, by decide⟩) (units_ofCount_pos hn) ?_
  calc unitsAt 1 * (ofCount n).units
      = (ofCount n).units := by rw [hone, Nat.one_mul]
    _ ≤ countLimit.units := units_mono hplace
    _ = 2 ^ 53 * unitsPerOne := units_countLimit
    _ ≤ m.units * unitsPerOne := Nat.mul_le_mul_right _ (hlimit.trans hm)

end Magnitude

namespace Binary64

open Magnitude (unitsPerOne)

/-! ## Integers are zero or at least one -/

theorem one_eq : one = signed false Magnitude.one := by
  have hone : one = ofInt (1 : Nat) := rfl
  rw [hone, ofInt_natCast, Magnitude.ofCount, Nat.one_mul, ← Magnitude.units_one,
    Magnitude.nearest_units]

theorem one_atMost_iff {s : Bool} {m : Magnitude} :
    one.AtMost (signed s m).abs ↔ unitsPerOne ≤ m.units := by
  rw [one_eq, abs, atMost_magnitude, ← Magnitude.units_one]
  exact Magnitude.unitsAt_strictMono.le_iff_le.symm

theorem AtMost.abs {y : Binary64} (h : x.AtMost y) : x.AtMost y.abs := by
  cases y with
  | nan => exact h
  | signed t b =>
      cases x with
      | nan => exact absurd h (by simp [AtMost, lt, eq])
      | signed s a =>
          have hle := atMost_iff.mp h
          refine atMost_iff.mpr (hle.trans ?_)
          cases t <;> simp [signedPlace]

theorem not_isZero_of_one_atMost (h : one.AtMost x.abs) : x.isZero = false := by
  cases x with
  | nan => rfl
  | signed s m =>
      have hunits := one_atMost_iff.mp h
      refine decide_eq_false fun hzero => ?_
      rw [hzero] at hunits
      exact Nat.not_le_of_lt Magnitude.unitsPerOne_pos hunits

theorem one_atMost_ofInt {n : Int} (hn : n ≠ 0) : one.AtMost (ofInt n).abs := by
  have hunits := Magnitude.unitsPerOne_le_ofCount (Int.natAbs_pos.mpr hn)
  rw [ofInt, round, Int.natAbs_mul, Int.natAbs_natCast]
  exact one_atMost_iff.mpr hunits

theorem isZero_ofInt {n : Int} : (ofInt n).isZero = true ↔ n = 0 := by
  constructor
  · intro hzero
    by_contra hn
    rw [not_isZero_of_one_atMost (one_atMost_ofInt hn)] at hzero
    cases hzero
  · rintro rfl
    decide +kernel

theorem isZero_abs (x : Binary64) : x.abs.isZero = x.isZero := by
  cases x <;> rfl

theorem isFinite_of_isZero (h : x.isZero = true) : x.isFinite = true := by
  cases x with
  | nan => cases h
  | signed s m =>
      obtain rfl : m = .zero := of_decide_eq_true h
      show (!Magnitude.zero.isInfinite) = true
      decide

theorem units_le_totalUnits {xs : List Binary64} (h : ∀ y ∈ xs, 0 ≤ y.units) (hx : x ∈ xs) :
    x.units ≤ totalUnits xs := by
  obtain ⟨before, after, rfl⟩ := List.append_of_mem hx
  have hbefore : 0 ≤ totalUnits before :=
    totalUnits_nonneg fun y hy => h y (List.mem_append_left _ hy)
  have hafter : 0 ≤ totalUnits after :=
    totalUnits_nonneg fun y hy => h y (List.mem_append_right _ (List.mem_cons_of_mem _ hy))
  rw [totalUnits_append, totalUnits_cons]
  omega

end Binary64

/-! ## Averages of integers -/

open Binary64 (one totalUnits)
open Magnitude (unitsPerOne)

/-- An average is above zero as soon as one of the errors is one or more in size. -/
theorem averageError_pos (hnan : ∀ e ∈ errors, e.isNaN = false)
    (hcount : errors.length < 2 ^ 53) (h : averageError errors = .ok x) {e : Binary64}
    (he : e ∈ errors) (hone : one.AtMost e.abs) : Binary64.zero.lt x = true := by
  by_cases hinfinite : ∃ e ∈ errors, e.isInfinite = true
  · rw [averageError_of_infinite hinfinite] at h
    cases h
    decide
  · have hfinite := finite_of_numbers hnan hinfinite
    obtain ⟨m, -, hround, rfl⟩ := average_of_finite hfinite h
    have htotal : (unitsPerOne : Int) ≤ totalUnits (errors.map .abs) := by
      have hmem := Binary64.units_le_totalUnits (fun y hy => (sizes_nonneg hfinite y hy).2)
        (List.mem_map_of_mem he)
      cases e with
      | nan => cases hnan _ he
      | signed s size => exact (Int.ofNat_le.mpr (Binary64.one_atMost_iff.mp hone)).trans hmem
    have hunits : unitsPerOne ≤ m.units := by
      rw [Binary64.round_of_nonneg (Binary64.totalUnits_abs_nonneg errors)] at hround
      obtain ⟨-, rfl⟩ := Binary64.signed.inj hround
      exact Magnitude.unitsPerOne_le_nearest (by omega)
    have hpos := Magnitude.divCount_pos hunits
      (List.length_pos_iff.mpr (nonempty_of_average h)) hcount
    exact decide_eq_true (Int.natCast_pos.mpr hpos)

theorem averageError_of_zeros (hzero : ∀ e ∈ errors, e.isZero = true)
    (h : averageError errors = .ok x) : x = .zero := by
  have hfinite : ∀ e ∈ errors, e.isFinite = true := fun e he =>
    Binary64.isFinite_of_isZero (hzero e he)
  obtain ⟨m, -, hround, rfl⟩ := average_of_finite hfinite h
  have htotal : totalUnits (errors.map .abs) = 0 := by
    refine zero_dvd_iff.mp (Binary64.dvd_totalUnits fun y hy => ?_)
    obtain ⟨e, he, rfl⟩ := List.mem_map.mp hy
    rw [Binary64.units_of_isZero ((Binary64.isZero_abs e).trans (hzero e he))]
  have hnothing : Binary64.round 0 1 = .signed false .zero := by decide +kernel
  rw [htotal, hnothing] at hround
  obtain ⟨-, rfl⟩ := Binary64.signed.inj hround
  rw [Magnitude.zero_divCount (List.length_pos_iff.mpr (nonempty_of_average h))]
  rfl

/-- If all errors are zero or at least one in size, their average is zero or above zero, and it is
zero only if they are. -/
theorem averageError_eq_zero_iff (hnan : ∀ e ∈ errors, e.isNaN = false)
    (hsizes : ∀ e ∈ errors, e.isZero = true ∨ one.AtMost e.abs)
    (hcount : errors.length < 2 ^ 53) (h : averageError errors = .ok x) :
    (x = .zero ↔ ∀ e ∈ errors, e.isZero = true) ∧ (x ≠ .zero → Binary64.zero.lt x = true) := by
  by_cases hzero : ∀ e ∈ errors, e.isZero = true
  · have hx := averageError_of_zeros hzero h
    exact ⟨iff_of_true hx hzero, fun hne => absurd hx hne⟩
  · have hpos : Binary64.zero.lt x = true := by
      push Not at hzero
      obtain ⟨e, he, hnonzero⟩ := hzero
      exact averageError_pos hnan hcount h he ((hsizes e he).resolve_left hnonzero)
    refine ⟨iff_of_false ?_ hzero, fun _ => hpos⟩
    rintro rfl
    revert hpos
    decide

/-! ## Programs that are right -/

namespace Evaluator

variable {e : Evaluator} {program : Program} {c : Case}

/-- The program leaves the expected output as its result. -/
def Solves (e : Evaluator) (program : Program) (c : Case) : Prop :=
  ∃ o, (e.run program c.input).result = .ok o ∧ o.result? = some c.expected

/-- The signed error for an integer problem, if there is one. -/
theorem score_integer (htype : e.problemType = .integer) {m : Int} (hm : c.expected = .int m)
    (h : (e.score program c).result = .ok x) : ∃ o, (e.run program c.input).result = .ok o ∧
      (o.result? = none ∧ x = e.config.emptyStackError ∨
        ∃ r, o.result? = some (.int r) ∧ x = .ofInt (r - m)) := by
  simp only [score] at h
  cases hrun : (e.run program c.input).result with
  | error err =>
      rw [hrun] at h
      cases h
  | ok o =>
      refine ⟨o, rfl, ?_⟩
      rw [hrun, hm] at h
      replace h : signedError e.config o (.int m) = .ok x := h
      rw [signedError] at h
      cases hresult : o.result? with
      | none =>
          rw [hresult] at h
          exact .inl ⟨rfl, (Except.ok.inj h).symm⟩
      | some v =>
          have hkind : v.OfKind .integer := by
            obtain ⟨w, -, -, -, rfl⟩ := run_eq_ok hrun
            exact htype ▸ topNumber?_ofKind hresult
          cases v with
          | float y => exact hkind.elim
          | int r =>
              refine .inr ⟨r, rfl, ?_⟩
              rw [hresult] at h
              simp only [Scalar.difference] at h
              rcases Scalar.toDouble_int_cases (r - m) with ⟨-, hok⟩ | ⟨-, herror⟩
              · rw [hok] at h
                exact (Except.ok.inj h).symm
              · rw [herror] at h
                cases h

/-- An error for an integer problem is zero if and only if the result is right, and if it is not
zero it is one or more in size. -/
theorem score_isZero_iff (htype : e.problemType = .integer)
    (hmissing : one.AtMost e.config.emptyStackError) (hexpected : c.expected.OfKind .integer)
    (h : (e.score program c).result = .ok x) :
    (x.isZero = true ↔ e.Solves program c) ∧ (x.isZero = true ∨ one.AtMost x.abs) := by
  cases hm : c.expected with
  | float y =>
      rw [hm] at hexpected
      exact hexpected.elim
  | int m =>
      obtain ⟨o, hrun, hcases⟩ := score_integer htype hm h
      have hsolves : e.Solves program c ↔ o.result? = some (.int m) := by
        simp [Solves, hrun, hm]
      rw [hsolves]
      rcases hcases with ⟨hnone, rfl⟩ | ⟨r, hresult, rfl⟩
      · have hnonzero := Binary64.not_isZero_of_one_atMost hmissing.abs
        simp [hnone, hnonzero, hmissing.abs]
      · rw [hresult, Option.some.injEq, Scalar.int.injEq, Binary64.isZero_ofInt, sub_eq_zero]
        by_cases hright : r = m
        · exact ⟨Iff.rfl, .inl hright⟩
        · exact ⟨Iff.rfl, .inr (Binary64.one_atMost_ofInt (sub_ne_zero.mpr hright))⟩

/-- No program is right on a case whose expected output has more than 32 bits. -/
theorem not_solves_of_not_inRange {m : Int} (hm : c.expected = .int m) (hrange : ¬ Int32.InRange m)
    (hshallow : e.Shallow program c.input) : ¬ e.Solves program c := by
  rintro ⟨o, hrun, hresult⟩
  exact hrange (result_inRange hshallow hrun (hm ▸ hresult))

end Evaluator

/-- On integer cases, with an error of one or more for a missing result, a program whose fitness is
zero leaves the expected output on every case, and every other program has a fitness above zero. If
a case expects an integer of more than 32 bits, no program has the fitness zero whose stacks stay
shallow on it. -/
theorem zero_fitness_means_solved {context : Context} {program : Program}
    (htype : context.evaluator.problemType = .integer)
    (hmissing : one.AtMost context.evaluator.config.emptyStackError)
    (hcases : ∀ c ∈ context.cases, c.expected.OfKind .integer)
    (hcount : context.cases.length < 2 ^ 53)
    (h : (context.trueFitness program).result = .ok x) :
    (x = .zero ↔ ∀ c ∈ context.cases, context.evaluator.Solves program c) ∧
    (x ≠ .zero → Binary64.zero.lt x = true) ∧
    ∀ c ∈ context.cases, ∀ m, c.expected = .int m → ¬ Int32.InRange m →
      context.evaluator.Shallow program c.input → x ≠ .zero := by
  obtain ⟨errors, herrors, haverage⟩ := Evaluator.scoreAll_of_fitness h
  have herror {c : Case} (hc : c ∈ context.cases) {y : Binary64}
      (hy : (context.evaluator.score program c).result = .ok y) :=
    Evaluator.score_isZero_iff htype hmissing (hcases c hc) hy
  have hsizes : ∀ y ∈ errors, y.isZero = true ∨ one.AtMost y.abs := by
    intro y hy
    obtain ⟨c, hc, hscore⟩ := (Evaluator.mem_of_scoreAll herrors y).mp hy
    exact (herror hc hscore).2
  obtain ⟨hzero, hpos⟩ := averageError_eq_zero_iff (Evaluator.isNaN_of_scoreAll herrors) hsizes
    (Evaluator.length_of_scoreAll herrors ▸ hcount) haverage
  have hsolved : x = .zero ↔ ∀ c ∈ context.cases, context.evaluator.Solves program c := by
    refine hzero.trans ⟨fun hall c hc => ?_, fun hall y hy => ?_⟩
    · obtain ⟨y, hy, hscore⟩ := Evaluator.exists_of_scoreAll herrors hc
      exact (herror hc hscore).1.mp (hall y hy)
    · obtain ⟨c, hc, hscore⟩ := (Evaluator.mem_of_scoreAll herrors y).mp hy
      exact (herror hc hscore).1.mpr (hall c hc)
  refine ⟨hsolved, hpos, fun c hc m hm hrange hshallow hx => ?_⟩
  exact Evaluator.not_solves_of_not_inRange hm hrange hshallow (hsolved.mp hx c hc)

/-- Cases whose output is their input. The second number is too wide to be loaded as it is. -/
def copyContext : Context :=
  .new .integer .default [⟨.int 3, .int 3⟩, ⟨.int 2147483648, .int 2147483648⟩]

theorem zero_fitness_means_solved_copy :
    one.AtMost copyContext.evaluator.config.emptyStackError ∧
    (∀ c ∈ copyContext.cases, c.expected.OfKind .integer) ∧ copyContext.cases.length < 2 ^ 53 ∧
    (copyContext.trueFitness []).result = .ok (.ofInt 2147483648) ∧
    (¬ ∀ c ∈ copyContext.cases, copyContext.evaluator.Solves [] c) ∧
    ¬ Int32.InRange 2147483648 ∧ copyContext.evaluator.Shallow [] (.int 2147483648) ∧
    Binary64.zero.lt (.ofInt 2147483648) = true := by
  have hmissing : one.AtMost copyContext.evaluator.config.emptyStackError := by decide +kernel
  have hcases : ∀ c ∈ copyContext.cases, c.expected.OfKind .integer := by
    simp [copyContext, Context.new, Scalar.OfKind]
  have hcount : copyContext.cases.length < 2 ^ 53 := by decide
  have hfitness : (copyContext.trueFitness []).result = .ok (.ofInt 2147483648) := by
    decide +kernel
  have hwide : ¬ Int32.InRange 2147483648 := by decide
  have hshallow : copyContext.evaluator.Shallow [] (.int 2147483648) :=
    Evaluator.shallow_of_pointsWithin rfl (by decide) _
  obtain ⟨hsolved, hpos, hrange⟩ :=
    zero_fitness_means_solved rfl hmissing hcases hcount hfitness
  have hnonzero := hrange ⟨.int 2147483648, .int 2147483648⟩ (by simp [copyContext, Context.new])
    _ rfl hwide hshallow
  exact ⟨hmissing, hcases, hcount, hfitness, fun hall => hnonzero (hsolved.mpr hall), hwide,
    hshallow, hpos hnonzero⟩

end PushFitness
