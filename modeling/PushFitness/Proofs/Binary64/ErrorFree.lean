import Mathlib.Algebra.Order.Ring.Abs
import Mathlib.Algebra.Order.Ring.Int
import Mathlib.Tactic.Positivity
import PushFitness.Proofs.Binary64.Nearest

/-!
# What rounding cuts off a sum is a double again

A double is worth an integer of at most 53 bits with zeros behind them. The sum of two of
them need not be one. But what its rounding cuts off is, and it can be found with two
subtractions: the larger summand is taken from the rounded sum, and what that leaves is
taken from the smaller summand. Both differences have 53 bits or fewer, so neither is
rounded (`Rounds.sub_large`, `Rounds.cut`).

The argument is about integers and about the power of two that divides them. With the
smaller summand a multiple of `2 ^ j`, so is everything else. If the sum needs no more than
53 bits above `2 ^ j`, nothing is cut off. Otherwise the rounded sum has a coarser last bit,
which bounds what is cut off from above.
-/

namespace PushFitness

/-- What a finite double is worth: at most 53 bits with `k` zeros behind them, where `k` is as
small as the size of the number allows. -/
structure Representable (k : Nat) (n : Int) : Prop where
  dvd : 2 ^ k ∣ n
  lt : |n| < 2 ^ (53 + k)
  le : k = 0 ∨ 2 ^ (52 + k) ≤ |n|

/-- A number that needs no rounding. It may also be the power of two above the range. -/
structure Fits (k : Nat) (n : Int) : Prop where
  dvd : 2 ^ k ∣ n
  le : |n| ≤ 2 ^ (53 + k)

theorem Representable.fits {k : Nat} {n : Int} (h : Representable k n) : Fits k n :=
  ⟨h.dvd, le_of_lt h.lt⟩

theorem fits_zero : Fits 0 0 := ⟨dvd_zero _, by rw [abs_zero]; positivity⟩

theorem two_pow_dvd_of_le {j k : Nat} {n : Int} (h : 2 ^ k ∣ n) (hjk : j ≤ k) : 2 ^ j ∣ n :=
  (pow_dvd_pow 2 hjk).trans h

theorem lt_of_two_pow_le_lt {i j : Nat} {n : Int} (hi : 2 ^ i ≤ n) (hj : n < 2 ^ j) : i < j :=
  (pow_lt_pow_iff_right₀ one_lt_two).mp (lt_of_le_of_lt hi hj)

/-- The last bit of the smaller of two numbers is the finer one. -/
theorem Representable.finer {i j : Nat} {a b : Int} (ha : Representable i a)
    (hb : Representable j b) (hab : |b| ≤ |a|) : j ≤ i := by
  rcases hb.le with hzero | hle
  · omega
  · have := lt_of_two_pow_le_lt hle (lt_of_le_of_lt hab ha.lt)
    omega

theorem Representable.add_le {i : Nat} {a : Int} (ha : Representable i a) :
    |a| + 2 ^ i ≤ 2 ^ (53 + i) := by
  obtain ⟨q, hq⟩ := (dvd_abs _ _).mpr ha.dvd
  have hlt := ha.lt
  rw [hq, pow_add, mul_comm (2 ^ 53)] at hlt
  have hq' : q < 2 ^ 53 := lt_of_mul_lt_mul_left hlt (by positivity)
  rw [hq, pow_add, mul_comm (2 ^ 53), ← mul_add_one]
  exact mul_le_mul_of_nonneg_left hq' (by positivity)

namespace Rounds

variable {k j i : Nat} {v r c a b : Int}

theorem error_le (h : Rounds k v r) : 2 * |v - r| ≤ 2 ^ k := by
  have hupper := h.upper
  have hlower := h.lower
  rw [Int.abs_eq_natAbs]
  omega

/-- No multiple of the last bit is nearer. -/
theorem best_of_dvd (h : Rounds k v r) (hc : 2 ^ k ∣ c) : |v - r| ≤ |v - c| := by
  have herror := h.error_le
  rcases eq_or_ne c r with rfl | hne
  · exact le_refl _
  · have hgap : 2 ^ k ≤ |c - r| :=
      Int.le_of_dvd (abs_pos.mpr (sub_ne_zero.mpr hne)) ((dvd_abs _ _).mpr (dvd_sub hc h.dvd))
    have htriangle := abs_sub_le c v r
    rw [abs_sub_comm c v] at htriangle
    omega

theorem exact_of_dvd (h : Rounds k v r) (hv : 2 ^ k ∣ v) : r = v := by
  have hbest := h.best_of_dvd hv
  rw [sub_self, abs_zero] at hbest
  exact (sub_eq_zero.mp (abs_nonpos_iff.mp hbest)).symm

/-- No double is nearer. One whose last bit is finer is smaller than the power of two that the
number has reached, and that is a multiple of the last bit. -/
theorem best (h : Rounds k v r) (hc : Representable j c) : |v - r| ≤ |v - c| := by
  rcases Nat.lt_or_ge j k with hjk | hkj
  · have hreached : 2 ^ (52 + k) ≤ |v| := h.le.resolve_left (by omega)
    have hsmall : |c| < 2 ^ (52 + k) :=
      lt_of_lt_of_le hc.lt (pow_le_pow_right₀ one_le_two (by omega))
    have hdvd : (2 : Int) ^ k ∣ 2 ^ (52 + k) := pow_dvd_pow 2 (by omega)
    rcases le_total 0 v with hv | hv
    · refine (h.best_of_dvd hdvd).trans ?_
      rw [abs_of_nonneg hv] at hreached
      rw [Int.abs_eq_natAbs] at hsmall ⊢
      rw [Int.abs_eq_natAbs]
      omega
    · refine (h.best_of_dvd ((dvd_neg).mpr hdvd)).trans ?_
      rw [abs_of_nonpos hv] at hreached
      rw [Int.abs_eq_natAbs] at hsmall ⊢
      rw [Int.abs_eq_natAbs]
      omega
  · exact h.best_of_dvd (two_pow_dvd_of_le hc.dvd hkj)

theorem exact (h : Rounds k v r) (hv : Fits j v) : r = v := by
  apply h.exact_of_dvd
  rcases Nat.lt_or_ge j k with hjk | hkj
  · -- a number that reaches beyond its 53 bits is the power of two above them
    have hreached : 2 ^ (52 + k) ≤ |v| := h.le.resolve_left (by omega)
    have hpow : (2 : Int) ^ (52 + k) ≤ 2 ^ (53 + j) := hreached.trans hv.le
    have hkj : 52 + k ≤ 53 + j := (pow_le_pow_iff_right₀ one_lt_two).mp hpow
    obtain rfl : k = j + 1 := by omega
    have heq : |v| = 2 ^ (53 + j) := by
      refine le_antisymm hv.le ?_
      rwa [show 53 + j = 52 + (j + 1) by omega]
    rw [← dvd_abs, heq]
    exact pow_dvd_pow 2 (by omega)
  · exact two_pow_dvd_of_le hv.dvd hkj

/-! ## The two differences -/

/-- What is cut off is no more than the smaller summand, because the larger one is a double as
well. -/
theorem cut_le (h : Rounds k (a + b) r) (ha : Representable i a) : |a + b - r| ≤ |b| := by
  have hbest := h.best ha
  rwa [add_sub_cancel_left] at hbest

theorem cut (h : Rounds k (a + b) r) (ha : Representable i a) (hb : Representable j b)
    (hab : |b| ≤ |a|) : ∃ l, Fits l (a + b - r) := by
  have hji := ha.finer hb hab
  have hsum : 2 ^ j ∣ a + b := dvd_add (two_pow_dvd_of_le ha.dvd hji) hb.dvd
  rcases Nat.lt_or_ge j k with hjk | hkj
  · refine ⟨j, dvd_sub hsum (two_pow_dvd_of_le h.dvd (Nat.le_of_lt hjk)), ?_⟩
    exact (h.cut_le ha).trans (le_of_lt hb.lt)
  · rw [h.exact_of_dvd (two_pow_dvd_of_le hsum hkj), sub_self]
    exact ⟨0, fits_zero⟩

/-- The sum of a number and a smaller one has one bit more at most. -/
theorem le_succ_of_add (h : Rounds k (a + b) r) (ha : Representable i a) (hab : |b| ≤ |a|)
    (hpos : 0 < k) : k ≤ i + 1 := by
  have hreached : 2 ^ (52 + k) ≤ |a + b| := h.le.resolve_left (by omega)
  have hdouble : |a + b| < 2 ^ (54 + i) := by
    have hpow : (2 : Int) ^ (54 + i) = 2 * 2 ^ (53 + i) := by
      rw [← pow_succ', show 53 + i + 1 = 54 + i by omega]
    have hadd := abs_add_le a b
    have hlt := ha.lt
    omega
  have hle := lt_of_two_pow_le_lt hreached hdouble
  omega

theorem sub_large (h : Rounds k (a + b) r) (ha : Representable i a) (hb : Representable j b)
    (hab : |b| ≤ |a|) : ∃ l, Fits l (r - a) := by
  have hji := ha.finer hb hab
  have hsum : 2 ^ j ∣ a + b := dvd_add (two_pow_dvd_of_le ha.dvd hji) hb.dvd
  rcases Nat.lt_or_ge j k with hjk | hkj
  · have hki := h.le_succ_of_add ha hab (by omega)
    have herror := h.error_le
    have htriangle := abs_sub_le r (a + b) a
    rw [add_sub_cancel_left, abs_sub_comm r (a + b)] at htriangle
    rcases Nat.lt_or_ge i k with hik | hki'
    · -- the sum has one bit more than the larger summand, which then is no power of two
      obtain rfl : k = i + 1 := by omega
      refine ⟨i, dvd_sub (two_pow_dvd_of_le h.dvd (by omega)) ha.dvd, ?_⟩
      have hroom := ha.add_le
      rw [pow_succ'] at herror
      omega
    · refine ⟨k, dvd_sub h.dvd (two_pow_dvd_of_le ha.dvd hki'), ?_⟩
      have hsmall : |b| < 2 ^ (52 + k) :=
        lt_of_lt_of_le hb.lt (pow_le_pow_right₀ one_le_two (by omega))
      have hstep : (2 : Int) ^ k ≤ 2 ^ (52 + k) := pow_le_pow_right₀ one_le_two (by omega)
      have hpow : (2 : Int) ^ (53 + k) = 2 * 2 ^ (52 + k) := by
        rw [← pow_succ', show 52 + k + 1 = 53 + k by omega]
      have hnonneg := abs_nonneg (a + b - r)
      omega
  · rw [h.exact_of_dvd (two_pow_dvd_of_le hsum hkj), add_sub_cancel_left]
    exact ⟨j, hb.fits⟩

end Rounds

end PushFitness
