import PushFitness.Binary64.Basic
import PushFitness.Proofs.Binary64.ErrorFree

/-!
# Sums of two finite doubles

A finite double is known by its units, apart from the sign of a zero. Here the addition is
put in these terms: it is finite as long as the exact sum stays below `overflow`, and then
its units are the exact sum, rounded. A sum that fits is not rounded at all.

With that the two subtractions behind a sum find what it has cut off (`units_cut`).
-/

namespace PushFitness

theorem Rounds.neg {k : Nat} {v r : Int} (h : Rounds k v r) : Rounds k (-v) (-r) := by
  have hupper := h.upper
  have hlower := h.lower
  refine ⟨?_, ?_, (dvd_neg).mpr h.dvd, by omega, by omega, fun htie => ?_⟩
  · rw [abs_neg]
    exact h.lt
  · rw [abs_neg]
    exact h.le
  · exact (dvd_neg).mpr (h.even (by omega))

theorem Representable.neg {k : Nat} {n : Int} (h : Representable k n) : Representable k (-n) := by
  refine ⟨(dvd_neg).mpr h.dvd, ?_, ?_⟩
  · rw [abs_neg]
    exact h.lt
  · rw [abs_neg]
    exact h.le

namespace Magnitude

theorem representable_units (m : Magnitude) : ∃ k, Representable k m.units := by
  rw [units]
  rcases Nat.lt_or_ge m.place runLength with h | h
  · rw [unitsAt_of_lt h]
    refine ⟨0, one_dvd _, ?_, .inl rfl⟩
    rw [Nat.abs_cast]
    rw [runLength_eq] at h
    omega
  · obtain ⟨e, s, hs, hplace⟩ := exists_run h
    rw [hplace, unitsAt_run e hs]
    have hlow : 2 ^ (52 + e) ≤ (runLength + s) * 2 ^ e := by
      rw [Nat.pow_add, ← runLength_eq]
      exact Nat.mul_le_mul_right _ (Nat.le_add_right _ _)
    have hhigh : (runLength + s) * 2 ^ e < 2 ^ (53 + e) := by
      rw [Nat.pow_add]
      refine (Nat.mul_lt_mul_right (Nat.two_pow_pos e)).mpr ?_
      rw [runLength_eq] at hs ⊢
      omega
    refine ⟨e, ?_, ?_, .inr ?_⟩
    · exact_mod_cast Nat.dvd_mul_left _ _
    · rw [Nat.abs_cast]
      exact_mod_cast hhigh
    · rw [Nat.abs_cast]
      exact_mod_cast hlow

theorem units_lt_overflow {m : Magnitude} (h : m.isInfinite = false) : m.units < overflow := by
  have hplace : ¬ infinity.place ≤ m.place := by
    rw [← isInfinite_iff, h]
    exact Bool.false_ne_true
  have hlast := unitsAt_le_lastFinite hplace
  have hpos := halfStep_pos
  rw [units, overflow]
  omega

end Magnitude

namespace Binary64

open Magnitude (overflow nearest)

variable {x y : Binary64}

/-! ## Finite doubles and their units -/

@[simp] theorem units_neg (x : Binary64) : x.neg.units = -x.units := by
  cases x with
  | nan => rfl
  | signed s m => cases s <;> simp [neg, units]

@[simp] theorem isFinite_neg (x : Binary64) : x.neg.isFinite = x.isFinite := by
  cases x <;> rfl

theorem units_natAbs (s : Bool) (m : Magnitude) : (signed s m).units.natAbs = m.units := by
  cases s <;> simp [units]

theorem representable_units (x : Binary64) : ∃ k, Representable k x.units := by
  cases x with
  | nan => exact ⟨0, dvd_zero _, by decide, .inl rfl⟩
  | signed s m =>
      obtain ⟨k, hk⟩ := m.representable_units
      cases s with
      | false => exact ⟨k, hk⟩
      | true => exact ⟨k, hk.neg⟩

theorem abs_units_lt (h : x.isFinite = true) : |x.units| < overflow := by
  cases x with
  | nan => cases h
  | signed s m =>
      rw [isFinite, Bool.not_eq_true'] at h
      rw [Int.abs_eq_natAbs, units_natAbs]
      exact_mod_cast m.units_lt_overflow h

theorem isFinite_round {v : Int} : (round v 1).isFinite = true ↔ |v| < overflow := by
  have hinf := @Magnitude.nearest_eq_infinity_iff v.natAbs
  rw [round, isFinite, Magnitude.isInfinite, Bool.not_eq_true', decide_eq_false_iff_not, hinf,
    Int.abs_eq_natAbs]
  omega

theorem rounds_round {v : Int} (h : |v| < overflow) : ∃ k, Rounds k v (round v 1).units := by
  have hlt : v.natAbs < overflow := by
    rw [Int.abs_eq_natAbs] at h
    exact_mod_cast h
  have hrounds := Magnitude.units_nearest hlt
  refine ⟨Magnitude.excess v.natAbs, ?_⟩
  rw [round, units]
  rcases lt_or_ge v 0 with hneg | hpos
  · have hv : -(v.natAbs : Int) = v := by omega
    have hnegated := hrounds.neg
    rw [hv] at hnegated
    rw [decide_eq_true hneg, if_pos rfl]
    exact hnegated
  · have hv : (v.natAbs : Int) = v := by omega
    rw [hv] at hrounds
    rw [decide_eq_false (not_lt.mpr hpos), if_neg Bool.false_ne_true]
    exact hrounds

theorem abs_lt_iff (hx : x.isFinite = true) (hy : y.isFinite = true) :
    x.abs.lt y.abs = true ↔ |x.units| < |y.units| := by
  cases x with
  | nan => cases hx
  | signed s a =>
      cases y with
      | nan => cases hy
      | signed t b =>
          rw [Int.abs_eq_natAbs, Int.abs_eq_natAbs, units_natAbs, units_natAbs]
          simp only [abs, lt, signedPlace, decide_eq_true_eq, Bool.false_eq_true, if_false,
            Nat.cast_lt]
          exact Magnitude.unitsAt_strictMono.lt_iff_lt.symm

/-! ## Addition -/

theorem add_of_finite (hx : x.isFinite = true) (hy : y.isFinite = true) :
    (x.add y).isFinite = (round (x.units + y.units) 1).isFinite ∧
      (x.add y).units = (round (x.units + y.units) 1).units := by
  cases x with
  | nan => cases hx
  | signed s a =>
      cases y with
      | nan => cases hy
      | signed t b =>
          rw [isFinite, Bool.not_eq_true'] at hx hy
          simp only [add, hx, hy, Bool.false_eq_true, if_false]
          split
          · next hzero =>
              rw [hzero]
              cases s <;> cases t <;> exact ⟨rfl, rfl⟩
          · exact ⟨rfl, rfl⟩

theorem isFinite_add (hx : x.isFinite = true) (hy : y.isFinite = true) :
    (x.add y).isFinite = true ↔ |x.units + y.units| < overflow := by
  rw [(add_of_finite hx hy).1, isFinite_round]

theorem rounds_add (hx : x.isFinite = true) (hy : y.isFinite = true)
    (h : (x.add y).isFinite = true) : ∃ k, Rounds k (x.units + y.units) (x.add y).units := by
  rw [(add_of_finite hx hy).2]
  exact rounds_round ((isFinite_add hx hy).mp h)

theorem add_of_infinite (hx : x.isFinite = false) (hy : y.isFinite = true) :
    (x.add y).isFinite = false := by
  cases x with
  | nan => rfl
  | signed s a =>
      cases y with
      | nan => cases hy
      | signed t b =>
          rw [isFinite, Bool.not_eq_false'] at hx
          rw [isFinite, Bool.not_eq_true'] at hy
          simp only [add, hx, hy, Bool.false_and, Bool.false_eq_true, if_true, if_false, isFinite,
            Bool.not_true]

/-- A sum that fits is exact. -/
theorem add_exact (hx : x.isFinite = true) (hy : y.isFinite = true) {k : Nat}
    (hfits : Fits k (x.units + y.units)) (hlt : |x.units + y.units| < overflow) :
    (x.add y).isFinite = true ∧ (x.add y).units = x.units + y.units := by
  have hfinite := (isFinite_add hx hy).mpr hlt
  obtain ⟨j, hrounds⟩ := rounds_add hx hy hfinite
  exact ⟨hfinite, hrounds.exact hfits⟩

/-! ## What a sum cuts off -/

/-- The rounded sum lies on the side of the larger summand, so their difference is no larger
than one of the two. -/
theorem abs_sub_large_lt {k : Nat} {a b r : Int} (h : Rounds k (a + b) r) (hab : |b| ≤ |a|)
    (halt : |a| < overflow) (hrlt : |r| < overflow) : |r - a| < overflow := by
  have hzero : Representable 0 0 := ⟨dvd_zero _, by decide, .inl rfl⟩
  have hside := h.best hzero
  rw [Int.abs_eq_natAbs] at *
  rw [Int.abs_eq_natAbs] at *
  omega

/-- Two subtractions find what the sum of a larger and a smaller double has cut off. -/
theorem units_cut {large small : Binary64} (hlarge : large.isFinite = true)
    (hsmall : small.isFinite = true) (hle : |small.units| ≤ |large.units|)
    (h : (large.add small).isFinite = true) :
    (small.sub ((large.add small).sub large)).isFinite = true ∧
      (small.sub ((large.add small).sub large)).units =
        large.units + small.units - (large.add small).units := by
  obtain ⟨k, hrounds⟩ := rounds_add hlarge hsmall h
  obtain ⟨i, ha⟩ := large.representable_units
  obtain ⟨j, hb⟩ := small.representable_units
  have hfirst : ((large.add small).sub large).isFinite = true ∧
      ((large.add small).sub large).units = (large.add small).units - large.units := by
    obtain ⟨l, hfits⟩ := hrounds.sub_large ha hb hle
    have hlt := abs_sub_large_lt hrounds hle (abs_units_lt hlarge) (abs_units_lt h)
    rw [sub_eq_add_neg, ← units_neg] at hfits hlt ⊢
    exact add_exact h ((isFinite_neg large).trans hlarge) hfits hlt
  obtain ⟨l, hfits⟩ := hrounds.cut ha hb hle
  have hlt := (hrounds.cut_le ha).trans_lt (abs_units_lt hsmall)
  have hunits : small.units + ((large.add small).sub large).neg.units =
      large.units + small.units - (large.add small).units := by
    rw [units_neg, hfirst.2]
    omega
  rw [← hunits] at hfits hlt ⊢
  exact add_exact hsmall ((isFinite_neg _).trans hfirst.1) hfits hlt

end Binary64

end PushFitness
