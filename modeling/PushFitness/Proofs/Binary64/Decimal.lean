import PushFitness.Binary64.Decimal
import PushFitness.Proofs.Binary64.Rounding

/-!
# Reading and writing decimals

A decimal is read as the rounding of its value, the two shortcuts for exponents that are far
off included (`toMagnitude_eq`), so zeros can be moved between the coefficient and the
exponent (`toMagnitude_mul_ten_pow`). The digits that are written for a finite magnitude
therefore read back as it: those found on a grid were tried, those written in full lose
nothing, and taking off zeros changes no value.
-/

namespace PushFitness

namespace Decimal

open Magnitude (unitExponent unitsPerOne unitsPerOne_eq nearest)

theorem tenTo_eq (e : Int) : tenTo e = 10 ^ e.toNat := rfl

theorem tenTo_pos (e : Int) : 0 < tenTo e := Nat.pow_pos (by decide)

theorem tenTo_of_nonpos {e : Int} (h : e ≤ 0) : tenTo e = 1 := by
  rw [tenTo_eq, Int.toNat_of_nonpos h, Nat.pow_zero]

/-! ## The shortcuts -/

/-- Ten is a little more than `2 ^ (205 / 62)`. -/
theorem two_pow_le_ten_pow (n : Nat) : 2 ^ (205 * (n / 62)) ≤ 10 ^ n := by
  have hstep : 2 ^ 205 ≤ 10 ^ 62 := by decide
  calc 2 ^ (205 * (n / 62))
      = (2 ^ 205) ^ (n / 62) := Nat.pow_mul 2 205 _
    _ ≤ (10 ^ 62) ^ (n / 62) := Nat.pow_le_pow_left hstep _
    _ = 10 ^ (62 * (n / 62)) := (Nat.pow_mul 10 62 _).symm
    _ ≤ 10 ^ n := Nat.pow_le_pow_right (by decide) (Nat.mul_div_le n 62)

theorem nearest_of_large_exponent {c : Nat} {e : Int} (hc : c ≠ 0) (h : 310 < e) :
    nearest (c * tenTo e * unitsPerOne) (tenTo (-e)) = .infinity := by
  have hone : tenTo (-e) = 1 := tenTo_of_nonpos (by omega)
  have hten : 2 ^ (205 * (e.toNat / 62)) ≤ c * tenTo e :=
    Nat.le_trans (two_pow_le_ten_pow _) (Nat.le_mul_of_pos_left _ (Nat.pos_of_ne_zero hc))
  have hexponent : 2098 ≤ 205 * (e.toNat / 62) + unitExponent := by
    rw [unitExponent]
    omega
  apply Magnitude.nearest_of_large (tenTo_pos _) hexponent
  rw [hone, Nat.mul_one, Nat.pow_add, ← unitsPerOne_eq]
  exact Nat.mul_le_mul_right _ hten

theorem nearest_of_small_exponent {c : Nat} {e : Int} (h : e + c.log2 < -400) :
    nearest (c * tenTo e * unitsPerOne) (tenTo (-e)) = .zero := by
  have hone : tenTo e = 1 := tenTo_of_nonpos (by omega)
  have hten : 2 ^ (1 + unitExponent + (c.log2 + 1)) ≤ tenTo (-e) := by
    calc 2 ^ (1 + unitExponent + (c.log2 + 1))
        ≤ 2 ^ (3 * (-e).toNat) := Nat.pow_le_pow_right (by decide) (by rw [unitExponent]; omega)
      _ = 8 ^ (-e).toNat := Nat.pow_mul 2 3 _
      _ ≤ 10 ^ (-e).toNat := Nat.pow_le_pow_left (by decide) _
  apply Magnitude.nearest_of_small
  calc 2 * (c * tenTo e * unitsPerOne)
      = 2 ^ (1 + unitExponent) * c := by
        rw [hone, Nat.mul_one, Nat.pow_add, ← unitsPerOne_eq, Nat.pow_one, Nat.mul_comm c,
          Nat.mul_assoc]
    _ < 2 ^ (1 + unitExponent) * 2 ^ (c.log2 + 1) :=
        (Nat.mul_lt_mul_left (Nat.two_pow_pos _)).mpr Nat.lt_log2_self
    _ = 2 ^ (1 + unitExponent + (c.log2 + 1)) := (Nat.pow_add 2 _ _).symm
    _ ≤ tenTo (-e) := hten

theorem toMagnitude_eq (d : Decimal) : d.toMagnitude =
    nearest (d.coefficient * tenTo d.exponent * unitsPerOne) (tenTo (-d.exponent)) := by
  rw [toMagnitude]
  split
  · next hzero =>
      rw [hzero, Nat.zero_mul, Nat.zero_mul, Magnitude.nearest_of_small (tenTo_pos _)]
  · next hc =>
      split
      · next hlarge => exact (nearest_of_large_exponent hc hlarge).symm
      · split
        · next hsmall => exact (nearest_of_small_exponent hsmall).symm
        · rfl

/-! ## Moving zeros -/

theorem tenTo_shift (e : Int) (k : Nat) :
    10 ^ k * tenTo e * tenTo (-(e + k)) = tenTo (e + k) * tenTo (-e) := by
  simp only [tenTo_eq, ← Nat.pow_add]
  congr 1
  omega

theorem toMagnitude_mul_ten_pow (c k : Nat) (e : Int) :
    toMagnitude ⟨c * 10 ^ k, e⟩ = toMagnitude ⟨c, e + k⟩ := by
  rw [toMagnitude_eq, toMagnitude_eq]
  apply Magnitude.nearest_congr (tenTo_pos _) (tenTo_pos _)
  show c * 10 ^ k * tenTo e * unitsPerOne * tenTo (-(e + k)) =
    c * tenTo (e + k) * unitsPerOne * tenTo (-e)
  generalize unitsPerOne = u
  calc c * 10 ^ k * tenTo e * u * tenTo (-(e + k))
      = c * u * (10 ^ k * tenTo e * tenTo (-(e + k))) := by ac_rfl
    _ = c * u * (tenTo (e + k) * tenTo (-e)) := by rw [tenTo_shift]
    _ = c * tenTo (e + k) * u * tenTo (-e) := by ac_rfl

theorem toMagnitude_trim (fuel : Nat) (d : Decimal) :
    (d.trim fuel).toMagnitude = d.toMagnitude := by
  induction fuel generalizing d with
  | zero => rfl
  | succ fuel ih =>
      rw [trim]
      split
      · next hzero =>
          have hc : d.coefficient / 10 * 10 ^ 1 = d.coefficient :=
            Nat.div_mul_cancel (Nat.dvd_of_mod_eq_zero hzero.2)
          have hshift := toMagnitude_mul_ten_pow (d.coefficient / 10) 1 d.exponent
          rw [hc] at hshift
          rw [ih]
          exact hshift.symm
      · rfl

end Decimal

namespace Magnitude

open Decimal (tenTo)

/-! ## Writing -/

theorem toMagnitude_decimalAt? {m : Magnitude} {e : Int} {d : Decimal}
    (h : m.decimalAt? e = some d) : d.toMagnitude = m := by
  rw [decimalAt?] at h
  have hread := List.find?_some h
  simp only [decide_eq_true_eq] at hread
  exact hread

/-- Halves are written with one digit each. -/
theorem nearest_halved (n k : Nat) :
    nearest (n * 5 ^ k * tenTo (-(k : Int)) * 2 ^ k) (tenTo (- -(k : Int))) = nearest n 1 := by
  have hone : tenTo (-(k : Int)) = 1 := Decimal.tenTo_of_nonpos (by omega)
  have hten : tenTo (- -(k : Int)) = 5 ^ k * 2 ^ k := by
    rw [Int.neg_neg, Decimal.tenTo_eq, Int.toNat_natCast, ← Nat.mul_pow]
  apply nearest_congr (Decimal.tenTo_pos _) Nat.one_pos
  rw [hone, hten, Nat.mul_one, Nat.mul_one, Nat.mul_assoc]

theorem toMagnitude_exactDecimal (m : Magnitude) : m.exactDecimal.toMagnitude = m := by
  rw [Decimal.toMagnitude_eq, unitsPerOne_eq, exactDecimal, Nat.pow_eq, nearest_halved]
  exact nearest_units m

theorem toMagnitude_shortestDecimal (m : Magnitude) : m.shortestDecimal.toMagnitude = m := by
  rw [shortestDecimal, Decimal.toMagnitude_trim]
  -- whichever of the seventeen grids was hit, the decimal on it was read before it was taken
  cases hfound : (List.range 17).findSome? fun n : Nat => m.decimalAt? (m.leadingExponent - n) with
  | none => exact m.toMagnitude_exactDecimal
  | some d =>
      obtain ⟨n, -, hn⟩ := List.exists_of_findSome?_eq_some hfound
      exact toMagnitude_decimalAt? hn

end Magnitude

end PushFitness
