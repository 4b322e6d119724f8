import Mathlib.Order.Monotone.Basic
import Mathlib.Algebra.Order.Ring.Cast
import PushFitness.Proofs.Binary64.Rounding

/-!
# How near a rounding is

A number of units lies between two places of the row, and both are known from its leading
53 bits: with `k` bits behind these the places next to it are the next multiples of `2 ^ k`
(`unitsAt_placeBelow`). Rounding takes the nearer multiple, and of two equally near ones the
even one, which is all that `Rounds` says.

The row ends. From `overflow` units on, halfway between the last finite place and what would
be the place behind it, the rounding is infinite (`nearest_eq_infinity_iff`).
-/

namespace PushFitness

/-- The multiple of `2 ^ k` nearest to a number that has `k` bits behind its leading 53; of
two equally near ones the even one. -/
structure Rounds (k : Nat) (v r : Int) : Prop where
  lt : |v| < 2 ^ (53 + k)
  le : k = 0 ∨ 2 ^ (52 + k) ≤ |v|
  dvd : 2 ^ k ∣ r
  upper : 2 * r ≤ 2 * v + 2 ^ k
  lower : 2 * v ≤ 2 * r + 2 ^ k
  even : 2 * r = 2 * v + 2 ^ k ∨ 2 * v = 2 * r + 2 ^ k → 2 ^ (k + 1) ∣ r

namespace Magnitude

/-- How many bits a number has behind its leading 53. -/
def excess (n : Nat) : Nat := n.log2 - 52

theorem excess_eq_zero {n : Nat} (h : n < 2 ^ 53) : excess n = 0 := by
  rcases Nat.eq_zero_or_pos n with rfl | hpos
  · rfl
  · have := (Nat.log2_lt (Nat.pos_iff_ne_zero.mp hpos)).mpr h
    rw [excess]
    omega

theorem lt_two_pow_excess (n : Nat) : n < 2 ^ (53 + excess n) := by
  rcases Nat.eq_zero_or_pos n with rfl | hpos
  · exact Nat.two_pow_pos _
  · refine (Nat.log2_lt (Nat.pos_iff_ne_zero.mp hpos)).mp ?_
    rw [excess]
    omega

theorem two_pow_excess_le (n : Nat) : excess n = 0 ∨ 2 ^ (52 + excess n) ≤ n := by
  rcases Nat.eq_zero_or_pos (excess n) with h | h
  · exact .inl h
  · right
    have hn : n ≠ 0 := by
      rintro rfl
      exact absurd h (by decide)
    refine (Nat.le_log2 hn).mp ?_
    rw [excess] at h ⊢
    omega

/-! ## The two places next to a number -/

theorem placeBelow_eq (n : Nat) : placeBelow n = excess n * runLength + n / 2 ^ excess n := rfl

/-- The leading bits of a number are a place of the first run, or a step of a later one. -/
theorem placeBelow_cases (n : Nat) : excess n = 0 ∧ n < runLength ∧ placeBelow n = n ∨
    ∃ s < runLength, n / 2 ^ excess n = runLength + s ∧
      placeBelow n = (excess n + 1) * runLength + s := by
  rcases Nat.lt_or_ge n runLength with h | h
  · refine .inl ⟨excess_eq_zero (Nat.lt_trans h (by decide)), h, placeBelow_of_lt h⟩
  · right
    have hpow : 0 < 2 ^ excess n := Nat.two_pow_pos _
    have hlow : runLength ≤ n / 2 ^ excess n := by
      rw [Nat.le_div_iff_mul_le hpow, runLength_eq, ← Nat.pow_add]
      rcases two_pow_excess_le n with hzero | hle
      · rw [hzero]
        exact h
      · exact hle
    have hhigh : n / 2 ^ excess n < runLength + runLength := by
      rw [Nat.div_lt_iff_lt_mul hpow, ← Nat.mul_two, runLength_eq, ← Nat.pow_succ, ← Nat.pow_add]
      exact lt_two_pow_excess n
    obtain ⟨s, hs⟩ := Nat.exists_eq_add_of_le hlow
    refine ⟨s, by omega, hs, ?_⟩
    rw [placeBelow_eq, hs, Nat.add_mul, Nat.one_mul, Nat.add_assoc]

theorem unitsAt_placeBelow (n : Nat) :
    unitsAt (placeBelow n) = n / 2 ^ excess n * 2 ^ excess n := by
  rcases placeBelow_cases n with ⟨hexcess, hlt, hplace⟩ | ⟨s, hs, hquot, hplace⟩
  · rw [hplace, unitsAt_of_lt hlt, hexcess, Nat.pow_zero, Nat.div_one, Nat.mul_one]
  · rw [hplace, unitsAt_run _ hs, hquot]

theorem unitsAt_placeBelow_succ (n : Nat) :
    unitsAt (placeBelow n + 1) = (n / 2 ^ excess n + 1) * 2 ^ excess n := by
  rcases placeBelow_cases n with ⟨hexcess, hlt, hplace⟩ | ⟨s, hs, hquot, hplace⟩
  · rw [hplace, hexcess, Nat.pow_zero, Nat.div_one, Nat.mul_one]
    rcases Nat.lt_or_ge (n + 1) runLength with hnext | hnext
    · exact unitsAt_of_lt hnext
    · have hfirst : n + 1 = (0 + 1) * runLength + 0 := by omega
      rw [hfirst, unitsAt_run 0 (by decide)]
      rfl
  · rw [hplace, unitsAt_run_succ _ hs, hquot, Nat.add_assoc]

theorem placeBelow_mod_two (n : Nat) : placeBelow n % 2 = n / 2 ^ excess n % 2 := by
  have heven : runLength = 2 * 2 ^ 51 := rfl
  rw [placeBelow_eq, heven, Nat.mul_left_comm, Nat.mul_add_mod]

theorem unitsAt_strictMono : StrictMono unitsAt := strictMono_nat_of_lt_succ unitsAt_lt_succ

theorem unitsAt_placeBelow_le (n : Nat) : unitsAt (placeBelow n) ≤ n := by
  rw [unitsAt_placeBelow]
  exact Nat.div_mul_le_self n _

theorem lt_unitsAt_placeBelow_succ (n : Nat) : n < unitsAt (placeBelow n + 1) := by
  rw [unitsAt_placeBelow_succ, ← Nat.div_lt_iff_lt_mul (Nat.two_pow_pos _)]
  exact Nat.lt_succ_self _

/-! ## Bounds on a rounding -/

theorem placeBelow_mono {n n' : Nat} (h : n ≤ n') : placeBelow n ≤ placeBelow n' := by
  have hlt : unitsAt (placeBelow n) < unitsAt (placeBelow n' + 1) :=
    calc unitsAt (placeBelow n)
        ≤ n := unitsAt_placeBelow_le n
      _ ≤ n' := h
      _ < unitsAt (placeBelow n' + 1) := lt_unitsAt_placeBelow_succ n'
  have hplace := unitsAt_strictMono.lt_iff_lt.mp hlt
  omega

/-- Rounding takes the place below or the one behind it. -/
theorem nearest_place (num den : Nat) : ∃ p, (nearest num den).place = min p infinity.place ∧
    placeBelow (num / den) ≤ p ∧ p ≤ placeBelow (num / den) + 1 := by
  refine ⟨_, rfl, ?_, ?_⟩
  · repeat' split
    all_goals omega
  · repeat' split
    all_goals omega

/-- A larger fraction is not rounded to a lower place. -/
theorem nearest_mono {num num' : Nat} (den : Nat) (h : num ≤ num') :
    (nearest num den).place ≤ (nearest num' den).place := by
  have hbelow := placeBelow_mono (Nat.div_le_div_right (c := den) h)
  rcases Nat.lt_or_eq_of_le hbelow with hlt | heq
  · obtain ⟨p, hp, -, hnext⟩ := nearest_place num den
    obtain ⟨p', hp', hbelow', -⟩ := nearest_place num' den
    omega
  · -- between the same two places only the side of their middle matters
    simp only [nearest, heq]
    generalize (unitsAt (placeBelow (num' / den)) + unitsAt (placeBelow (num' / den) + 1)) * den =
      twiceMiddle
    refine min_le_min_right _ ?_
    repeat' split
    all_goals omega

theorem nearest_units_mul (m : Magnitude) {den : Nat} (hden : 0 < den) :
    nearest (m.units * den) den = m := by
  have hscale := nearest_scale m.units 1 hden
  rwa [Nat.one_mul, nearest_units] at hscale

/-- A fraction that is worth no more than a magnitude is not rounded beyond it. -/
theorem nearest_le {num den : Nat} {m : Magnitude} (hden : 0 < den)
    (h : num ≤ m.units * den) : (nearest num den).place ≤ m.place := by
  have hmono := nearest_mono den h
  rwa [nearest_units_mul m hden] at hmono

theorem le_nearest {num den : Nat} {m : Magnitude} (hden : 0 < den)
    (h : m.units * den ≤ num) : m.place ≤ (nearest num den).place := by
  have hmono := nearest_mono den h
  rwa [nearest_units_mul m hden] at hmono

/-! ## Whole numbers of units -/

theorem two_pow_excess_dvd {n r : Nat} (h : r = placeBelow n ∨ r = placeBelow n + 1) :
    2 ^ excess n ∣ unitsAt r ∧ (r % 2 = 0 → 2 ^ (excess n + 1) ∣ unitsAt r) := by
  have hparity := placeBelow_mod_two n
  rw [Nat.pow_succ']
  rcases h with rfl | rfl
  · rw [unitsAt_placeBelow]
    refine ⟨Nat.dvd_mul_left _ _, fun heven => ?_⟩
    exact Nat.mul_dvd_mul (Nat.dvd_of_mod_eq_zero (hparity ▸ heven)) (Nat.dvd_refl _)
  · rw [unitsAt_placeBelow_succ]
    refine ⟨Nat.dvd_mul_left _ _, fun heven => ?_⟩
    have hnext : (n / 2 ^ excess n + 1) % 2 = 0 := by
      rw [Nat.add_mod, ← hparity, ← Nat.add_mod, heven]
    exact Nat.mul_dvd_mul (Nat.dvd_of_mod_eq_zero hnext) (Nat.dvd_refl _)

/-- Rounding a whole number of units gives a multiple of the last bit that counts, unless it
leaves the row. -/
theorem nearest_whole (n : Nat) : ∃ p, (nearest n 1).place = min p infinity.place ∧
    Rounds (excess n) n (unitsAt p) := by
  have hstep : unitsAt (placeBelow n + 1) = unitsAt (placeBelow n) + 2 ^ excess n := by
    rw [unitsAt_placeBelow_succ, unitsAt_placeBelow, Nat.succ_mul]
  have hlow := unitsAt_placeBelow_le n
  have hhigh := lt_unitsAt_placeBelow_succ n
  have hrounds {p : Nat} (hp : p = placeBelow n ∨ p = placeBelow n + 1)
      (hupper : 2 * unitsAt p ≤ 2 * n + 2 ^ excess n)
      (hlower : 2 * n ≤ 2 * unitsAt p + 2 ^ excess n)
      (htie : p % 2 = 0 ∨ 2 * unitsAt p ≠ 2 * n + 2 ^ excess n ∧
        2 * n ≠ 2 * unitsAt p + 2 ^ excess n) : Rounds (excess n) n (unitsAt p) := by
    obtain ⟨hdvd, heven⟩ := two_pow_excess_dvd hp
    refine ⟨?_, ?_, by exact_mod_cast hdvd, by exact_mod_cast hupper, by exact_mod_cast hlower, ?_⟩
    · rw [Nat.abs_cast]
      exact_mod_cast lt_two_pow_excess n
    · rw [Nat.abs_cast]
      exact_mod_cast two_pow_excess_le n
    · intro hmiddle
      have hmiddle' : 2 * unitsAt p = 2 * n + 2 ^ excess n ∨
          2 * n = 2 * unitsAt p + 2 ^ excess n := by exact_mod_cast hmiddle
      exact_mod_cast heven (by omega)
  refine ⟨_, by rw [nearest], ?_⟩
  simp only [Nat.div_one, Nat.mul_one]
  split
  · exact hrounds (.inl rfl) (by omega) (by omega) (.inr (by omega))
  · split
    · exact hrounds (.inr rfl) (by omega) (by omega) (.inr (by omega))
    · -- halfway between the two places the even one is taken
      rcases Nat.mod_two_eq_zero_or_one (placeBelow n) with heven | hodd
      · rw [heven, Nat.add_zero]
        exact hrounds (.inl rfl) (by omega) (by omega) (.inl heven)
      · rw [hodd]
        exact hrounds (.inr rfl) (by omega) (by omega) (.inl (by omega))

/-! ## The end of the row -/

/-- How often the unit is doubled in half of the last step of the row. -/
def halfStepExponent : Nat := 2044

def halfStep : Nat := 2 ^ halfStepExponent

/-- Halfway between what the last finite place is worth and what infinity would be worth if
it were one more place of the row. -/
def overflow : Nat := (2 ^ 54 - 1) * halfStep

theorem isInfinite_iff {m : Magnitude} : m.isInfinite = true ↔ infinity.place ≤ m.place := by
  rw [isInfinite, decide_eq_true_eq]
  constructor
  · rintro rfl
    exact Nat.le_refl _
  · intro h
    exact eq_of_place (Nat.le_antisymm m.place_le h)

theorem halfStep_pos : 0 < halfStep := Nat.two_pow_pos halfStepExponent

theorem two_pow_mul_halfStep (k : Nat) : 2 ^ k * halfStep = 2 ^ (k + halfStepExponent) :=
  (Nat.pow_add 2 k halfStepExponent).symm

theorem unitsAt_infinity : unitsAt infinity.place = 2 ^ 54 * halfStep := by
  have hplace : infinity.place = (2 + halfStepExponent + 1) * runLength + 0 := rfl
  have hcount : (runLength + 0) * 2 ^ 2 = 2 ^ 54 := rfl
  rw [hplace, unitsAt_run _ (by decide), ← two_pow_mul_halfStep, ← Nat.mul_assoc, hcount]

theorem unitsAt_lastFinite : unitsAt (infinity.place - 1) = (2 ^ 54 - 2) * halfStep := by
  have hplace : infinity.place - 1 =
      (1 + halfStepExponent + 1) * runLength + (runLength - 1) := rfl
  have hcount : (runLength + (runLength - 1)) * 2 ^ 1 = 2 ^ 54 - 2 := rfl
  rw [hplace, unitsAt_run _ (by decide), ← two_pow_mul_halfStep, ← Nat.mul_assoc, hcount]

theorem infinity_place_le_iff {p : Nat} : infinity.place ≤ p ↔ 2 ^ 54 * halfStep ≤ unitsAt p := by
  rw [← unitsAt_infinity, unitsAt_strictMono.le_iff_le]

theorem unitsAt_le_lastFinite {p : Nat} (h : ¬ infinity.place ≤ p) :
    unitsAt p ≤ (2 ^ 54 - 2) * halfStep := by
  rw [← unitsAt_lastFinite, unitsAt_strictMono.le_iff_le]
  omega

theorem two_pow_excess_le_step {n : Nat} (h : n < 2 ^ 54 * halfStep) :
    2 ^ excess n ≤ 2 ^ 1 * halfStep := by
  rw [two_pow_mul_halfStep] at h ⊢
  refine Nat.pow_le_pow_right Nat.two_pos ?_
  rcases two_pow_excess_le n with hzero | hle
  · omega
  · have := (Nat.pow_lt_pow_iff_right (by decide)).mp (Nat.lt_of_le_of_lt hle h)
    omega

/-- Below the last power of two only the middle between the last two places is left to decide,
and there the even place is the infinite one. -/
theorem infinity_place_le_of_rounds {n p : Nat} (hn : n < 2 ^ 54 * halfStep)
    (h : Rounds (excess n) n (unitsAt p)) : infinity.place ≤ p ↔ overflow ≤ n := by
  have hupper : 2 * unitsAt p ≤ 2 * n + 2 ^ excess n := by exact_mod_cast h.upper
  have hlower : 2 * n ≤ 2 * unitsAt p + 2 ^ excess n := by exact_mod_cast h.lower
  have hstep := two_pow_excess_le_step hn
  constructor
  · intro hp
    rw [infinity_place_le_iff] at hp
    rw [overflow]
    omega
  · intro hle
    by_contra hp
    have hlast := unitsAt_le_lastFinite hp
    rw [overflow] at hle
    have htie : 2 * n = 2 * unitsAt p + 2 ^ excess n := by omega
    have hunits : unitsAt p = (2 ^ 53 - 1) * (2 * halfStep) := by omega
    have hexcess : 2 ^ excess n = 2 * halfStep := by omega
    have heven : 2 ^ (excess n + 1) ∣ unitsAt p := by
      exact_mod_cast h.even (.inr (by exact_mod_cast htie))
    rw [Nat.pow_succ', hexcess, hunits] at heven
    have hodd := Nat.dvd_of_mul_dvd_mul_right (Nat.mul_pos Nat.two_pos halfStep_pos) heven
    exact absurd hodd (by decide)

theorem nearest_eq_infinity_iff {n : Nat} : nearest n 1 = infinity ↔ overflow ≤ n := by
  rcases Nat.lt_or_ge n (2 ^ 54 * halfStep) with hn | hn
  · obtain ⟨p, hp, hrounds⟩ := nearest_whole n
    rw [← infinity_place_le_of_rounds hn hrounds]
    constructor
    · intro h
      have hplace := congrArg place h
      omega
    · intro h
      exact eq_of_place (by omega)
  · have hlarge : 2 ^ (54 + halfStepExponent) * 1 ≤ n := by
      rwa [Nat.mul_one, ← two_pow_mul_halfStep]
    have hinf : nearest n 1 = infinity := nearest_of_large Nat.one_pos (by decide) hlarge
    refine ⟨fun _ => ?_, fun _ => hinf⟩
    rw [overflow]
    omega

theorem units_nearest {n : Nat} (h : n < overflow) : Rounds (excess n) n (nearest n 1).units := by
  obtain ⟨p, hp, hrounds⟩ := nearest_whole n
  have hfinite : ¬ infinity.place ≤ (nearest n 1).place := by
    rw [← isInfinite_iff, isInfinite, decide_eq_true_eq, nearest_eq_infinity_iff]
    exact Nat.not_le_of_lt h
  have hplace : (nearest n 1).place = p := by omega
  rw [units, hplace]
  exact hrounds

end Magnitude

end PushFitness
