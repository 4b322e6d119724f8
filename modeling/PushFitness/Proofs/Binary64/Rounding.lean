import Mathlib.Algebra.Group.Nat.Defs
import PushFitness.Binary64.Magnitude

/-!
# Rounding to a magnitude

What `nearest` makes of a fraction depends on its value and not on how it is written
(`nearest_congr`). A magnitude is its own rounding, because `placeBelow` undoes `unitsAt`.
At the two ends of the row the rounding is known without it: a fraction below half a unit is
zero, and one that is worth the last place or more is infinite.
-/

namespace PushFitness.Magnitude

theorem eq_of_place {m m' : Magnitude} (h : m.place = m'.place) : m = m' := by
  cases m
  cases m'
  cases h
  rfl

/-! ## The value of a fraction -/

theorem nearest_scale (num den : Nat) {k : Nat} (hk : 0 < k) :
    nearest (num * k) (den * k) = nearest num den := by
  have hbelow : num * k / (den * k) = num / den := Nat.mul_div_mul_right num den hk
  have hless : ∀ s, 2 * (num * k) < s * (den * k) ↔ 2 * num < s * den := by
    intro s
    rw [← Nat.mul_assoc, ← Nat.mul_assoc]
    exact Nat.mul_lt_mul_right hk
  have hmore : ∀ s, s * (den * k) < 2 * (num * k) ↔ s * den < 2 * num := by
    intro s
    rw [← Nat.mul_assoc, ← Nat.mul_assoc]
    exact Nat.mul_lt_mul_right hk
  simp only [nearest, hbelow, hless, hmore]

theorem nearest_congr {num den num' den' : Nat} (hden : 0 < den) (hden' : 0 < den')
    (h : num * den' = num' * den) : nearest num den = nearest num' den' := by
  calc nearest num den
      = nearest (num * den') (den * den') := (nearest_scale num den hden').symm
    _ = nearest (num' * den) (den' * den) := by rw [h, Nat.mul_comm den den']
    _ = nearest num' den' := nearest_scale num' den' hden

/-! ## Places and their worth -/

theorem runLength_eq : runLength = 2 ^ 52 := rfl

theorem unitsPerOne_eq : unitsPerOne = 2 ^ unitExponent := by
  unfold unitsPerOne
  generalize unitExponent = k
  rfl

/-- A place behind the first run is a number of runs and a number of steps. -/
theorem exists_run {p : Nat} (h : runLength ≤ p) :
    ∃ e s, s < runLength ∧ p = (e + 1) * runLength + s := by
  have hpos : 0 < runLength := by decide
  have hquot : 1 ≤ p / runLength := (Nat.one_le_div_iff hpos).mpr h
  refine ⟨p / runLength - 1, p % runLength, Nat.mod_lt p hpos, ?_⟩
  rw [Nat.sub_add_cancel hquot]
  exact (Nat.div_add_mod' p runLength).symm

theorem unitsAt_of_lt {p : Nat} (h : p < runLength) : unitsAt p = p := by
  rw [unitsAt, if_pos h]

theorem unitsAt_run {s : Nat} (e : Nat) (hs : s < runLength) :
    unitsAt ((e + 1) * runLength + s) = (runLength + s) * 2 ^ e := by
  have hpos : 0 < runLength := by decide
  have hle : runLength ≤ (e + 1) * runLength + s := by
    rw [Nat.add_mul, Nat.one_mul]
    omega
  have hquot : ((e + 1) * runLength + s) / runLength = e + 1 := by
    rw [Nat.mul_comm, Nat.mul_add_div hpos, Nat.div_eq_of_lt hs, Nat.add_zero]
  have hmod : ((e + 1) * runLength + s) % runLength = s := by
    rw [Nat.mul_comm, Nat.mul_add_mod, Nat.mod_eq_of_lt hs]
  rw [unitsAt, if_neg (Nat.not_lt_of_le hle), hquot, hmod]
  rfl

theorem unitsAt_run_succ {s : Nat} (e : Nat) (hs : s < runLength) :
    unitsAt ((e + 1) * runLength + s + 1) = (runLength + (s + 1)) * 2 ^ e := by
  rw [Nat.add_assoc]
  rcases Nat.lt_or_ge (s + 1) runLength with hnext | hnext
  · exact unitsAt_run e hnext
  · -- the place behind the last step of a run has one doubling more and no steps
    have hs' : s + 1 = runLength := by omega
    have hfirst : unitsAt ((e + 1 + 1) * runLength) = runLength * 2 ^ (e + 1) := by
      simpa only [Nat.add_zero] using unitsAt_run (e + 1) (s := 0) (by decide)
    rw [hs', ← Nat.succ_mul, hfirst, Nat.pow_succ', ← Nat.mul_assoc, Nat.mul_two]

theorem unitsAt_lt_succ (p : Nat) : unitsAt p < unitsAt (p + 1) := by
  rcases Nat.lt_or_ge p runLength with h | h
  · rw [unitsAt_of_lt h]
    rcases Nat.lt_or_ge (p + 1) runLength with hnext | hnext
    · rw [unitsAt_of_lt hnext]
      exact Nat.lt_succ_self p
    · have hplace : p + 1 = (0 + 1) * runLength + 0 := by omega
      rw [hplace, unitsAt_run 0 (by decide), Nat.pow_zero, Nat.mul_one]
      exact h
  · obtain ⟨e, s, hs, rfl⟩ := exists_run h
    rw [unitsAt_run e hs, unitsAt_run_succ e hs]
    exact (Nat.mul_lt_mul_right (Nat.two_pow_pos e)).mpr (Nat.lt_succ_self _)

theorem placeBelow_of_lt {n : Nat} (h : n < runLength) : placeBelow n = n := by
  have hlog : n.log2 - 52 = 0 := by
    rcases Nat.eq_zero_or_pos n with rfl | hpos
    · rfl
    · have := (Nat.log2_lt (Nat.pos_iff_ne_zero.mp hpos)).mpr (runLength_eq ▸ h)
      omega
  rw [placeBelow, hlog, Nat.zero_mul, Nat.zero_add]
  exact Nat.div_one n

/-- A significand of 53 bits and the number of times it is doubled are found again in the
product. -/
theorem placeBelow_run {s : Nat} (e : Nat) (hs : s < runLength) :
    placeBelow ((runLength + s) * 2 ^ e) = (e + 1) * runLength + s := by
  have hpow : 0 < 2 ^ e := Nat.two_pow_pos e
  have hpos : 0 < (runLength + s) * 2 ^ e := Nat.mul_pos (Nat.add_pos_left (by decide) s) hpow
  have hlog : ((runLength + s) * 2 ^ e).log2 = 52 + e := by
    rw [Nat.log2_eq_iff (Nat.pos_iff_ne_zero.mp hpos)]
    constructor
    · rw [Nat.pow_add, ← runLength_eq]
      exact Nat.mul_le_mul_right _ (Nat.le_add_right _ s)
    · rw [Nat.add_right_comm, Nat.pow_add, Nat.pow_succ, Nat.mul_two, ← runLength_eq]
      exact (Nat.mul_lt_mul_right hpow).mpr (Nat.add_lt_add_left hs _)
  -- the logarithm counts the doublings and the 52 bits behind the leading one
  rw [placeBelow, hlog, Nat.add_sub_cancel_left]
  show e * runLength + (runLength + s) * 2 ^ e / 2 ^ e = _
  rw [Nat.mul_div_cancel _ hpow, Nat.add_mul, Nat.one_mul, Nat.add_assoc]

theorem placeBelow_unitsAt (p : Nat) : placeBelow (unitsAt p) = p := by
  rcases Nat.lt_or_ge p runLength with h | h
  · rw [unitsAt_of_lt h, placeBelow_of_lt h]
  · obtain ⟨e, s, hs, rfl⟩ := exists_run h
    rw [unitsAt_run e hs, placeBelow_run e hs]

/-! ## Fractions whose rounding is known -/

theorem nearest_units (m : Magnitude) : nearest m.units 1 = m := by
  have hless : 2 * unitsAt m.place < (unitsAt m.place + unitsAt (m.place + 1)) * 1 := by
    have := unitsAt_lt_succ m.place
    omega
  simp only [units, nearest, Nat.div_one, placeBelow_unitsAt, if_pos hless,
    Nat.min_eq_left (show m.place ≤ infinity.place from m.place_le)]

theorem nearest_of_small {num den : Nat} (h : 2 * num < den) : nearest num den = zero := by
  have hquot : num / den = 0 := Nat.div_eq_of_lt (by omega)
  have hbelow : placeBelow 0 = 0 := rfl
  have hless : 2 * num < (unitsAt 0 + unitsAt (0 + 1)) * den := by
    rw [unitsAt_of_lt (by decide), unitsAt_of_lt (by decide)]
    omega
  simp only [nearest, hquot, hbelow, if_pos hless, Nat.zero_min]
  rfl

theorem infinity_place_le_placeBelow {n : Nat} (hn : n ≠ 0) (h : 2098 ≤ n.log2) :
    infinity.place ≤ placeBelow n := by
  have hsig : runLength ≤ n / 2 ^ (n.log2 - 52) := by
    rw [Nat.le_div_iff_mul_le (Nat.two_pow_pos _), runLength_eq, ← Nat.pow_add,
      Nat.add_sub_of_le (by omega)]
    exact Nat.log2_self_le hn
  have hruns : 2046 * runLength ≤ (n.log2 - 52) * runLength := Nat.mul_le_mul_right _ (by omega)
  calc infinity.place
      = 2046 * runLength + runLength := rfl
    _ ≤ (n.log2 - 52) * runLength + n / 2 ^ (n.log2 - 52) := Nat.add_le_add hruns hsig

theorem nearest_of_large {num den k : Nat} (hden : 0 < den) (hk : 2098 ≤ k)
    (h : 2 ^ k * den ≤ num) : nearest num den = infinity := by
  have hquot : 2 ^ k ≤ num / den := (Nat.le_div_iff_mul_le hden).mpr h
  have hne : num / den ≠ 0 := Nat.pos_iff_ne_zero.mp (Nat.lt_of_lt_of_le (Nat.two_pow_pos k) hquot)
  have hlog : 2098 ≤ (num / den).log2 := Nat.le_trans hk ((Nat.le_log2 hne).mpr hquot)
  have hbelow := infinity_place_le_placeBelow hne hlog
  have hplace : (nearest num den).place = infinity.place := by
    apply Nat.min_eq_right
    split
    · exact hbelow
    · split <;> omega
  exact eq_of_place hplace

end PushFitness.Magnitude
