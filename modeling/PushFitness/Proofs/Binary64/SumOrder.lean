import PushFitness.Proofs.Binary64.SumRange

/-!
# How much a sum depends on the order

The result of a summation is the exact sum rounded once, and that is the same in every order.
Whether there is a result is another matter. A partial sum can be rounded to an infinity while
the exact sum is still below the end of the row, and it depends on the order whether that
happens. For summands that are not negative it happens at the very end of the row only, for exact
sums beyond the largest finite double (`canSum_of_le_largest`).
-/

namespace PushFitness.Binary64

open Magnitude (overflow halfStep_pos)

variable {xs ys : List Binary64}

/-! ## Exact sums in another order -/

theorem totalUnits_perm (h : xs.Perm ys) : totalUnits xs = totalUnits ys := by
  induction h with
  | nil => rfl
  | cons x _ ih => rw [totalUnits_cons, totalUnits_cons, ih]
  | swap x y _ =>
      simp only [totalUnits_cons]
      omega
  | trans _ _ ih₁ ih₂ => exact ih₁.trans ih₂

/-- Doubles that are not negative come to no less than the first of them. -/
theorem totalUnits_prefix_le (h : ∀ x ∈ ys, 0 ≤ x.units) (hfirst : xs <+: ys) :
    totalUnits xs ≤ totalUnits ys := by
  obtain ⟨rest, rfl⟩ := hfirst
  have hrest := totalUnits_nonneg (List.forall_mem_append.mp h).2
  rw [totalUnits_append]
  omega

/-! ## Sums in another order -/

/-- The summation of finite doubles fails only where the exact sum of the first of them rounds
to an infinity. -/
def FailsExactly (xs : List Binary64) : Prop :=
  (∀ x ∈ xs, x.isFinite = true) → sum? xs = none →
    ∃ part, part <+: xs ∧ (round (totalUnits part) 1).isFinite = false

/-- A sum of doubles that are not negative is the same in another order, or is not formed
there. The latter is not for the exact sum, and happens near the end of the row only. -/
theorem sum?_perm {s : Binary64} (hxs : ∀ x ∈ xs, x.isFinite = true ∧ 0 ≤ x.units)
    (hperm : ys.Perm xs) (h : sum? xs = some s) : sum? ys = some s ∨
      sum? ys = none ∧ ¬ FailsExactly ys ∧ overflow ≤ 6 * totalUnits ys := by
  have hys : ∀ y ∈ ys, y.isFinite = true ∧ 0 ≤ y.units := fun y hy => hxs y (hperm.subset hy)
  have htotal := totalUnits_perm hperm
  obtain ⟨hfinite, rfl⟩ := isFinite_sum? (fun x hx => (hxs x hx).1) h
  cases hsum : sum? ys with
  | some s =>
      obtain ⟨-, rfl⟩ := isFinite_sum? (fun y hy => (hys y hy).1) hsum
      exact .inl (by rw [htotal])
  | none =>
      refine .inr ⟨rfl, fun hexact => ?_, ?_⟩
      · obtain ⟨part, hfirst, hpart⟩ := hexact (fun y hy => (hys y hy).1) hsum
        have hle := totalUnits_prefix_le (fun y hy => (hys y hy).2) hfirst
        have hnonneg : 0 ≤ totalUnits part :=
          totalUnits_nonneg fun y hy => (hys y (hfirst.subset hy)).2
        rw [isFinite_round, abs_of_nonneg (by omega)] at hfinite
        rw [← Bool.not_eq_true, isFinite_round, abs_of_nonneg hnonneg] at hpart
        omega
      · by_contra hsmall
        have hnonneg := totalUnits_nonneg fun y hy => (hys y hy).2
        have hrange : totalUnits ys ≤ largest.units := by
          have hpos := halfStep_pos
          rw [overflow_cast] at hsmall
          rw [units_largest]
          omega
        rw [sum?, canSum_of_le_largest hys hrange] at hsum
        cases hsum

end PushFitness.Binary64
