import PushFitness.Proofs.Binary64.Sum

/-!
# A sum in the range is formed

A summation fails when a partial sum becomes infinite. Of summands that are not negative this can
happen only if their exact sum is larger than the largest finite double, however many of them
there are and in whatever order they come (`canSum_of_le_largest`).

What is added to the partial sums passes them one after the other, and on its way it is a rounded
number: what has been cut off is missing in it, or is too much in it. The induction is on the
partial sums that are still ahead, and `CutOff` says what it has to know of the cuts. Together
they are below half a power of two that divides everything that is ahead, and below the last step
of the row. So if the rounded number reached the end of the row, the exact sum would have left it
by more than half of that power.

In the other direction, the partial sums that have been passed are worth little against those
ahead (`Apart.rest`). So the rounded number does not become infinite on the negative side either.
-/

namespace PushFitness.Binary64

open Magnitude (overflow halfStep halfStepExponent halfStep_pos two_pow_mul_halfStep)

variable {x y : Binary64} {xs ps : List Binary64}

/-! ## The largest finite double -/

/-- The double in front of infinity. -/
def largest : Binary64 := signed false ⟨Magnitude.infinity.place - 1, by decide⟩

theorem units_largest : largest.units = (2 ^ 54 - 2) * halfStep := by
  have hunits : largest.units = (Magnitude.unitsAt (Magnitude.infinity.place - 1) : Int) := rfl
  rw [hunits, Magnitude.unitsAt_lastFinite]
  push_cast
  rfl

/-! ## Numbers below half a power of two -/

/-- A number below half a power of two and a multiple of that power are below half of every power
of two that the multiple is below half of. -/
theorem two_mul_abs_add_lt {f g : Nat} {c d : Int} (hc : 2 * |c| < 2 ^ g) (hdvd : 2 ^ g ∣ d)
    (hd : 2 * |d| < 2 ^ f) (hne : d ≠ 0) : 2 * |c + d| < 2 ^ f := by
  have hpow : (2 : Int) ^ (g + 1) = 2 * 2 ^ g := pow_succ' 2 g
  have hleast : 2 ^ g ≤ |d| := Int.le_of_dvd (abs_pos.mpr hne) ((dvd_abs _ _).mpr hdvd)
  have hgf : g + 1 ≤ f := by
    by_contra hfg
    have hle : (2 : Int) ^ f ≤ 2 ^ g := pow_le_pow_right₀ one_le_two (by omega)
    omega
  have hgap : 2 * 2 ^ g ≤ 2 ^ f - 2 * |d| := by
    rw [← hpow]
    refine Int.le_of_dvd (by omega) (dvd_sub (pow_dvd_pow 2 hgf) ?_)
    rw [hpow]
    exact mul_dvd_mul_left 2 ((dvd_abs _ _).mpr hdvd)
  have htriangle := abs_add_le c d
  omega

/-- Partial sums are worth less than half a power of two that divides all higher ones. -/
theorem Apart.exists_above (h : Apart (xs ++ ps)) :
    ∃ g : Nat, 2 * |totalUnits xs| < 2 ^ g ∧ ∀ p ∈ ps, 2 ^ g ∣ p.units := by
  induction xs with
  | nil => exact ⟨0, by simp, fun p _ => one_dvd p.units⟩
  | cons x xs ih =>
      obtain ⟨⟨f, hx, hdvd⟩, htail⟩ := h
      obtain ⟨hxs, hps⟩ := List.forall_mem_append.mp hdvd
      obtain ⟨g, hg, hgps⟩ := ih htail
      rw [totalUnits_cons]
      by_cases hzero : totalUnits xs = 0
      · exact ⟨f, by rwa [hzero, add_zero], hps⟩
      · exact ⟨g, two_mul_abs_add_lt hx (dvd_totalUnits hxs) hg hzero, hgps⟩

theorem exists_units_ne_zero (h : totalUnits ps ≠ 0) : ∃ p ∈ ps, p.units ≠ 0 := by
  induction ps with
  | nil => exact absurd rfl h
  | cons p ps ih =>
      by_cases hp : p.units = 0
      · rw [totalUnits_cons, hp, zero_add] at h
        obtain ⟨q, hq, hne⟩ := ih h
        exact ⟨q, List.mem_cons_of_mem _ hq, hne⟩
      · exact ⟨p, List.mem_cons_self, hp⟩

/-- The highest ones of partial sums that are not negative together are not negative, and exceed
all of them by less than half of the row. -/
theorem Apart.rest (h : Apart (xs ++ ps)) (hps : ∀ p ∈ ps, p.isFinite = true)
    (hnonneg : 0 ≤ totalUnits (xs ++ ps)) : 0 ≤ totalUnits ps ∧
      2 * totalUnits ps < 2 * totalUnits (xs ++ ps) + overflow := by
  obtain ⟨g, hxs, hdvd⟩ := h.exists_above
  have hpos : (0 : Int) < overflow := by
    have := halfStep_pos
    rw [overflow_cast]
    omega
  rw [totalUnits_append] at hnonneg ⊢
  by_cases hzero : totalUnits ps = 0
  · omega
  · obtain ⟨p, hp, hne⟩ := exists_units_ne_zero hzero
    have hleast : 2 ^ g ≤ |p.units| :=
      Int.le_of_dvd (abs_pos.mpr hne) ((dvd_abs _ _).mpr (hdvd p hp))
    have hlt := abs_units_lt (hps p hp)
    have htotal : 2 ^ g ≤ |totalUnits ps| :=
      Int.le_of_dvd (abs_pos.mpr hzero) ((dvd_abs _ _).mpr (dvd_totalUnits hdvd))
    rw [Int.abs_eq_natAbs] at hxs htotal
    omega

/-! ## What has been cut off -/

/-- The last bit that counts is worth no more than the last step of the row. -/
theorem two_pow_le_of_rounds {k : Nat} {v r : Int} (h : Rounds k v r) (hv : |v| < overflow) :
    2 ^ k ≤ 2 * (halfStep : Int) := by
  have hstep : 2 * (halfStep : Int) = 2 ^ (1 + halfStepExponent) := by
    rw [halfStep_cast, pow_add, pow_one]
  rw [hstep]
  refine pow_le_pow_right₀ one_le_two ?_
  rcases h.le with hzero | hle
  · omega
  · have hrow : (2 : Int) ^ (52 + k) < 2 ^ (54 + halfStepExponent) := by
      rw [pow_add 2 54, ← halfStep_cast]
      have hoverflow := overflow_cast
      have hpos := halfStep_pos
      omega
    have hlt := (pow_lt_pow_iff_right₀ one_lt_two).mp hrow
    omega

/-- What a double has lost on its way through partial sums, when `ps` are still ahead. -/
structure CutOff (c : Int) (x : Binary64) (ps : List Binary64) : Prop where
  apart : ∃ g : Nat, 2 * |c| < 2 ^ g ∧ 2 ^ g ∣ x.units ∧ ∀ p ∈ ps, 2 ^ g ∣ p.units
  lt : |c| < 2 * halfStep

theorem cutOff_zero (x : Binary64) (ps : List Binary64) : CutOff 0 x ps where
  apart := ⟨0, by simp, one_dvd _, fun p _ => one_dvd p.units⟩
  lt := by
    have := halfStep_pos
    rw [abs_zero]
    omega

/-- One more partial sum is passed. If its cut is not zero, the cuts before are small against
it. -/
theorem CutOff.next {c : Int} {sum cut : Binary64} (h : CutOff c x (y :: ps))
    (hsplit : Split x y sum cut) (hlt : |x.units + y.units| < overflow)
    (hapart : Apart (y :: ps)) : CutOff (c + cut.units) sum ps := by
  obtain ⟨g, hc, hx, hyps⟩ := h.apart
  rw [List.forall_mem_cons] at hyps
  obtain ⟨hsum, hcut⟩ := hsplit.dvd hx hyps.1
  by_cases hzero : cut.units = 0
  · rw [hzero, add_zero]
    exact ⟨⟨g, hc, hsum, hyps.2⟩, h.lt⟩
  · obtain ⟨⟨e, hye, hpse⟩, -⟩ := hapart
    obtain ⟨f, hfe, hcutf, hsumf⟩ := hsplit.exists_apart hye
    refine ⟨⟨f, two_mul_abs_add_lt hc hcut hcutf hzero, hsumf,
      fun p hp => two_pow_dvd_of_le (hpse p hp) hfe⟩, ?_⟩
    obtain ⟨k, hrounds⟩ := hsplit.rounds
    have herror := hrounds.error_le
    have hstep := two_pow_le_of_rounds hrounds hlt
    have hleast : 2 ^ g ≤ |cut.units| :=
      Int.le_of_dvd (abs_pos.mpr hzero) ((dvd_abs _ _).mpr hcut)
    rw [← hsplit.units, add_sub_cancel_left] at herror
    have htriangle := abs_add_le c cut.units
    omega

/-- A multiple of a power of two does not reach the end of the row if something below half of
that power takes it back into the range. -/
theorem lt_overflow_of_cut {g : Nat} {v c : Int} (hc : 2 * |c| < 2 ^ g) (hv : 2 ^ g ∣ v)
    (hlt : |c| < 2 * halfStep) (hle : v + c ≤ largest.units) : v < overflow := by
  have hpos := halfStep_pos
  have hoverflow := overflow_cast
  rw [units_largest] at hle
  rw [Int.abs_eq_natAbs] at hc hlt
  rcases Nat.lt_or_ge halfStepExponent g with hcoarse | hfine
  · have hdvd : 2 * (halfStep : Int) ∣ v := by
      refine Dvd.dvd.trans ?_ hv
      rw [halfStep_cast, ← pow_succ']
      exact pow_dvd_pow 2 hcoarse
    by_contra hge
    have hgap : 2 * (halfStep : Int) ≤ v - (2 ^ 54 - 2) * halfStep :=
      Int.le_of_dvd (by omega) (dvd_sub hdvd ⟨2 ^ 53 - 1, by omega⟩)
    omega
  · have hle' : (2 : Int) ^ g ≤ halfStep := by
      rw [halfStep_cast]
      exact pow_le_pow_right₀ one_le_two hfine
    omega

/-! ## Room for a summation -/

/-- A double passes partial sums without becoming infinite if all together is in the range. -/
theorem absorb_finite {c total : Int} (hx : x.isFinite = true)
    (hps : ∀ p ∈ ps, p.isFinite = true) (hapart : Apart ps) (hcut : CutOff c x ps)
    (htotal : x.units + totalUnits ps + c = total) (hrange : total ≤ largest.units)
    (hrest : ∀ rest, rest <:+ ps → 0 ≤ totalUnits rest ∧
      2 * totalUnits rest < 2 * total + overflow) : (absorb x ps).2.isFinite = true := by
  induction ps generalizing x c with
  | nil => exact hx
  | cons y ps ih =>
      rw [List.forall_mem_cons] at hps
      rw [totalUnits_cons] at htotal
      obtain ⟨sum, cut, heq, -, hfinite, hsplit⟩ := absorb_cons x y ps
      obtain ⟨hahead, hbound⟩ := hrest ps (List.suffix_cons y ps)
      have hsmall := hcut.lt
      have hlt : |x.units + y.units| < overflow := by
        obtain ⟨g, hc, hgx, hgps⟩ := hcut.apart
        rw [List.forall_mem_cons] at hgps
        refine abs_lt.mpr ⟨?_, lt_overflow_of_cut hc (dvd_add hgx hgps.1) hsmall (by omega)⟩
        have hpos := halfStep_pos
        have hoverflow := overflow_cast
        rw [Int.abs_eq_natAbs] at hsmall
        omega
      have hsum := (hfinite hx hps.1).mpr hlt
      have hboth := hsplit hx hps.1 hsum
      have hunits := hboth.units
      rw [heq]
      exact ih hsum hps.2 hapart.2 (hcut.next hboth hlt hapart) (by omega)
        fun rest hsuffix => hrest rest (hsuffix.trans (List.suffix_cons y ps))

/-- Doubles that are not negative are added to partial sums one after the other as long as
everything together is in the range. -/
theorem absorbAll?_of_le (hps : ∀ p ∈ ps, p.isFinite = true) (hapart : Apart ps)
    (htotal : 0 ≤ totalUnits ps) (hxs : ∀ x ∈ xs, x.isFinite = true ∧ 0 ≤ x.units)
    (hrange : totalUnits ps + totalUnits xs ≤ largest.units) :
    (absorbAll? ps xs).isSome = true := by
  -- what is absorbed and what is still to come add up to the same sum throughout
  induction xs generalizing ps with
  | nil => rfl
  | cons x xs ih =>
      rw [List.forall_mem_cons] at hxs
      obtain ⟨⟨hx, hnonneg⟩, hrest⟩ := hxs
      rw [totalUnits_cons] at hrange
      have hbehind := totalUnits_nonneg fun y hy => (hrest y hy).2
      have hlast : (absorb x ps).2.isFinite = true := by
        refine absorb_finite hx hps hapart (cutOff_zero x ps) (add_zero _) (by omega) ?_
        rintro rest ⟨front, rfl⟩
        have := hapart.rest (fun p hp => hps p (List.mem_append_right _ hp)) htotal
        omega
      have habsorbed := absorbed hx hps hapart hlast
      have hkept := habsorbed.total
      rw [absorbAll?]
      simp only [hlast, if_true]
      split
      · next hzero =>
          rw [units_of_isZero hzero] at hkept
          exact ih habsorbed.finite habsorbed.apart.of_append (by omega) hrest (by omega)
      · have hall : ∀ p ∈ (absorb x ps).1 ++ [(absorb x ps).2], p.isFinite = true :=
          List.forall_mem_append.mpr ⟨habsorbed.finite, List.forall_mem_singleton.mpr hlast⟩
        have hsum : totalUnits ((absorb x ps).1 ++ [(absorb x ps).2]) =
            totalUnits (absorb x ps).1 + (absorb x ps).2.units := by
          rw [totalUnits_append, totalUnits_cons, totalUnits_nil, add_zero]
        exact ih hall habsorbed.apart (by omega) hrest (by omega)

/-- Doubles that are not negative have a sum if their exact sum is not larger than the largest
finite double. -/
theorem canSum_of_le_largest (hxs : ∀ x ∈ xs, x.isFinite = true ∧ 0 ≤ x.units)
    (h : totalUnits xs ≤ largest.units) : canSum xs = true := by
  apply absorbAll?_of_le (List.forall_mem_nil _) trivial (Int.le_refl 0) hxs
  rwa [totalUnits_nil, zero_add]

/-- Beyond the largest double the order matters: here the first two summands reach the end of the
row exactly, or the last one is rounded up before it is added. -/
example :
    let half := ofBits 0x7FE0000000000000
    let nearlyHalf := ofBits 0x7FDFFFFFFFFFFFFE
    let step := ofBits 0x7C88000000000000
    canSum [half, nearlyHalf, step] = true ∧ canSum [half, step, nearlyHalf] = false := by
  decide +kernel

end PushFitness.Binary64
