import PushFitness.Binary64.Sum
import PushFitness.Proofs.Binary64.Addition

/-!
# A summation that comes to its end has a finite sum

A summation fails when a partial sum becomes infinite, and its result is the exact sum,
rounded once. Nothing in this says yet that the result is finite: the partial sums behind
the last one are lost for the test, and they might add up to what is missing to `overflow`.

They do not, and that is because of how they are formed. What is absorbed keeps its exact
worth (`Absorbed.total`). And two partial sums are always apart: twice the lower one is less
than a power of two that divides all higher ones (`Apart`). Rounding to nearest gives this
only because ties go to the even side; with ties to the other side partial sums of `2 ^ 970`
and `2 ^ 1024 - 2 ^ 971` could stand, and they add up to an infinite sum.
-/

namespace PushFitness.Binary64

open Magnitude (overflow halfStep halfStepExponent halfStep_pos two_pow_mul_halfStep)

variable {x y : Binary64} {ps xs : List Binary64}

/-! ## Exact sums -/

@[simp] theorem totalUnits_nil : totalUnits [] = 0 := rfl

@[simp] theorem totalUnits_cons (x : Binary64) (xs : List Binary64) :
    totalUnits (x :: xs) = x.units + totalUnits xs := rfl

@[simp] theorem totalUnits_append (xs ys : List Binary64) :
    totalUnits (xs ++ ys) = totalUnits xs + totalUnits ys := by
  induction xs with
  | nil => rw [List.nil_append, totalUnits_nil, Int.zero_add]
  | cons x xs ih => rw [List.cons_append, totalUnits_cons, ih, totalUnits_cons, Int.add_assoc]

theorem dvd_totalUnits {d : Int} (h : ∀ x ∈ xs, d ∣ x.units) : d ∣ totalUnits xs := by
  induction xs with
  | nil => exact dvd_zero d
  | cons x xs ih =>
      rw [List.forall_mem_cons] at h
      exact dvd_add h.1 (ih h.2)

theorem totalUnits_nonneg (h : ∀ x ∈ xs, 0 ≤ x.units) : 0 ≤ totalUnits xs := by
  induction xs with
  | nil => exact Int.le_refl 0
  | cons x xs ih =>
      rw [List.forall_mem_cons] at h
      rw [totalUnits_cons]
      exact add_nonneg h.1 (ih h.2)

theorem units_of_isZero (h : x.isZero = true) : x.units = 0 := by
  cases x with
  | nan => rfl
  | signed s m =>
      have hm : m = .zero := of_decide_eq_true h
      rw [hm]
      cases s <;> rfl

/-! ## Partial sums that stay apart -/

/-- Twice a partial sum is less than some power of two that divides all of the higher ones. -/
def Apart : List Binary64 → Prop
  | [] => True
  | p :: ps => (∃ g : Nat, 2 * |p.units| < 2 ^ g ∧ ∀ q ∈ ps, 2 ^ g ∣ q.units) ∧ Apart ps

theorem Apart.of_append (h : Apart (xs ++ ps)) : Apart xs := by
  induction xs with
  | nil => trivial
  | cons x xs ih =>
      obtain ⟨⟨g, hg, hdvd⟩, htail⟩ := h
      exact ⟨⟨g, hg, fun q hq => hdvd q (List.mem_append_left _ hq)⟩, ih htail⟩

theorem apart_singleton (x : Binary64) : Apart [x] := by
  refine ⟨⟨(2 * |x.units|).toNat, ?_, List.forall_mem_nil _⟩, trivial⟩
  have hlt : (2 * |x.units|).toNat < 2 ^ (2 * |x.units|).toNat := Nat.lt_two_pow_self
  have hcast : ((2 * |x.units|).toNat : Int) < 2 ^ (2 * |x.units|).toNat := by exact_mod_cast hlt
  omega

theorem halfStep_cast : (halfStep : Int) = 2 ^ halfStepExponent := by
  rw [halfStep, Nat.cast_pow, Nat.cast_ofNat]

theorem overflow_cast : (overflow : Int) = (2 ^ 54 - 1) * halfStep := by
  rw [overflow, Nat.cast_mul]
  rfl

/-- Something that is apart from a multiple of a power of two does not carry it over the end of
the row. -/
theorem abs_add_lt_overflow {g : Nat} {s c : Int} (hs : |s| < overflow) (hdvd : 2 ^ g ∣ s)
    (hapart : 2 * |c| < 2 ^ g) (hc : |c| < overflow) : |s + c| < overflow := by
  have hadd := abs_add_le s c
  have hnonneg := abs_nonneg c
  have hoverflow := overflow_cast
  have hgap {t : Int} (ht : 2 ^ g ∣ t) (hst : |s| < t) : |s| ≤ t - 2 ^ g := by
    have := Int.le_of_dvd (sub_pos.mpr hst) (dvd_sub ht ((dvd_abs _ _).mpr hdvd))
    omega
  have hpos := halfStep_pos
  rcases Nat.lt_or_ge halfStepExponent g with hlow | hlow
  · have hstep : (2 : Int) ^ 1 * halfStep ≤ 2 ^ g := by
      rw [halfStep_cast, ← pow_add]
      exact pow_le_pow_right₀ one_le_two (by omega)
    rcases Nat.lt_or_ge (54 + halfStepExponent) g with hbeyond | hrow
    · have hrow : (2 : Int) ^ 54 * halfStep ≤ 2 ^ g := by
        rw [halfStep_cast, ← pow_add]
        exact pow_le_pow_right₀ one_le_two (Nat.le_of_lt hbeyond)
      have hzero := hgap (dvd_refl _) (by omega)
      omega
    · have hdvd' : (2 : Int) ^ g ∣ 2 ^ 54 * halfStep := by
        rw [halfStep_cast, ← pow_add]
        exact pow_dvd_pow 2 hrow
      have := hgap hdvd' (by omega)
      omega
  · have hdvd' : (2 : Int) ^ g ∣ overflow := by
      rw [hoverflow, halfStep_cast]
      exact Dvd.dvd.mul_left (pow_dvd_pow 2 hlow) _
    have := hgap hdvd' hs
    omega

/-! ## Absorbing one double -/

/-- The rounded sum of two finite doubles, and what it cuts off. -/
structure Split (x y sum cut : Binary64) : Prop where
  sum_finite : sum.isFinite = true
  cut_finite : cut.isFinite = true
  units : sum.units + cut.units = x.units + y.units
  cut_le : |cut.units| ≤ |y.units|
  rounds : ∃ k, Rounds k (x.units + y.units) sum.units

theorem split_of_le {large small : Binary64} (hlarge : large.isFinite = true)
    (hsmall : small.isFinite = true) (hle : |small.units| ≤ |large.units|)
    (h : (large.add small).isFinite = true) :
    Split large small (large.add small) (small.sub ((large.add small).sub large)) := by
  obtain ⟨hfinite, hunits⟩ := units_cut hlarge hsmall hle h
  obtain ⟨k, hrounds⟩ := rounds_add hlarge hsmall h
  obtain ⟨i, hrep⟩ := large.representable_units
  refine ⟨h, hfinite, by omega, ?_, k, hrounds⟩
  rw [hunits]
  exact hrounds.cut_le hrep

theorem Split.swap {sum cut : Binary64} (h : Split x y sum cut) (hle : |y.units| ≤ |x.units|) :
    Split y x sum cut where
  sum_finite := h.sum_finite
  cut_finite := h.cut_finite
  units := by rw [h.units, add_comm]
  cut_le := h.cut_le.trans hle
  rounds := by
    rw [add_comm]
    exact h.rounds

theorem not_abs_lt_of_infinite (hx : x.isFinite = false) : ¬ x.abs.lt y.abs = true := by
  cases x with
  | nan => exact Bool.false_ne_true
  | signed s a =>
      cases y with
      | nan => exact Bool.false_ne_true
      | signed t b =>
          rw [isFinite, Bool.not_eq_false'] at hx
          rw [of_decide_eq_true hx]
          simp only [abs, lt, signedPlace, decide_eq_true_eq, Bool.false_eq_true, if_false,
            Nat.cast_lt, not_lt]
          exact b.place_le

/-- What is done with the first partial sum. -/
theorem absorb_cons (x y : Binary64) (ps : List Binary64) : ∃ sum cut,
    absorb x (y :: ps) = (if cut.isZero then (absorb sum ps).1 else cut :: (absorb sum ps).1,
      (absorb sum ps).2) ∧
    (x.isFinite = false → y.isFinite = true → sum.isFinite = false) ∧
    (x.isFinite = true → y.isFinite = true →
      (sum.isFinite = true ↔ |x.units + y.units| < overflow)) ∧
    (x.isFinite = true → y.isFinite = true → sum.isFinite = true → Split x y sum cut) := by
  by_cases hlt : x.abs.lt y.abs = true
  · refine ⟨y.add x, x.sub ((y.add x).sub y), by simp only [absorb, hlt, if_true],
      fun hx _ => absurd hlt (not_abs_lt_of_infinite hx),
      fun hx hy => by rw [isFinite_add hy hx, add_comm], fun hx hy hsum => ?_⟩
    have hle := le_of_lt ((abs_lt_iff hx hy).mp hlt)
    exact (split_of_le hy hx hle hsum).swap hle
  · refine ⟨x.add y, y.sub ((x.add y).sub x),
      by simp only [absorb, hlt, Bool.false_eq_true, if_false],
      fun hx hy => add_of_infinite hx hy, fun hx hy => isFinite_add hx hy, fun hx hy hsum => ?_⟩
    rw [abs_lt_iff hx hy, not_lt] at hlt
    exact split_of_le hx hy hlt hsum

theorem absorb_of_infinite (hx : x.isFinite = false) (hps : ∀ p ∈ ps, p.isFinite = true) :
    (absorb x ps).2.isFinite = false := by
  induction ps generalizing x with
  | nil => exact hx
  | cons y ps ih =>
      rw [List.forall_mem_cons] at hps
      obtain ⟨sum, cut, heq, hinfinite, -⟩ := absorb_cons x y ps
      rw [heq]
      exact ih (hinfinite hx hps.1) hps.2

/-- What absorbing a double into partial sums leaves, if it ends in a finite one. -/
structure Absorbed (x : Binary64) (ps cuts : List Binary64) (last : Binary64) : Prop where
  finite : ∀ p ∈ cuts, p.isFinite = true
  total : totalUnits cuts + last.units = x.units + totalUnits ps
  dvd : ∀ g : Nat, 2 ^ g ∣ x.units → (∀ p ∈ ps, 2 ^ g ∣ p.units) →
    ∀ p ∈ cuts ++ [last], 2 ^ g ∣ p.units
  apart : Apart (cuts ++ [last])
  lt : |x.units + totalUnits ps| < overflow

/-- The cut is apart from everything that was a multiple of a coarse power of two. Ties to the
even side make the sum a multiple of the next power when the cut is half a step. -/
theorem Split.exists_apart {sum cut : Binary64} (h : Split x y sum cut) {g : Nat}
    (hy : 2 * |y.units| < 2 ^ g) : ∃ f ≤ g, 2 * |cut.units| < 2 ^ f ∧ 2 ^ f ∣ sum.units := by
  obtain ⟨k, hrounds⟩ := h.rounds
  have hcut : |x.units + y.units - sum.units| = |cut.units| := by
    rw [← h.units, add_sub_cancel_left]
  have herror := hrounds.error_le
  rw [hcut] at herror
  have hle := h.cut_le
  rcases lt_or_eq_of_le herror with hless | htie
  · rcases Nat.le_total k g with hkg | hgk
    · exact ⟨k, hkg, hless, hrounds.dvd⟩
    · exact ⟨g, le_refl g, by omega, two_pow_dvd_of_le hrounds.dvd hgk⟩
  · have heven : 2 ^ (k + 1) ∣ sum.units := by
      apply hrounds.even
      rw [← hcut, Int.abs_eq_natAbs] at htie
      omega
    rcases Nat.le_total (k + 1) g with hkg | hgk
    · refine ⟨k + 1, hkg, ?_, heven⟩
      have hpos : (0 : Int) < 2 ^ k := by positivity
      rw [pow_succ]
      omega
    · exact ⟨g, le_refl g, by omega, two_pow_dvd_of_le heven hgk⟩

theorem Split.dvd {sum cut : Binary64} (h : Split x y sum cut) {g : Nat}
    (hx : 2 ^ g ∣ x.units) (hy : 2 ^ g ∣ y.units) : 2 ^ g ∣ sum.units ∧ 2 ^ g ∣ cut.units := by
  obtain ⟨k, hrounds⟩ := h.rounds
  have hboth := dvd_add hx hy
  have hsum : 2 ^ g ∣ sum.units := by
    rcases Nat.le_total g k with hgk | hkg
    · exact two_pow_dvd_of_le hrounds.dvd hgk
    · rwa [hrounds.exact_of_dvd (two_pow_dvd_of_le hboth hkg)]
  refine ⟨hsum, ?_⟩
  rw [← h.units] at hboth
  exact (dvd_add_right hsum).mp hboth

/-- One more partial sum in front: its cut goes in front of the other cuts. -/
theorem Absorbed.cons {sum cut : Binary64} {cuts : List Binary64} {last : Binary64}
    (h : Absorbed sum ps cuts last) (hsplit : Split x y sum cut) (hy : y.isFinite = true)
    (hapart : Apart (y :: ps)) : Absorbed x (y :: ps) (cut :: cuts) last := by
  obtain ⟨⟨g, hyg, hpsg⟩, -⟩ := hapart
  obtain ⟨f, hfg, hcut, hsum⟩ := hsplit.exists_apart hyg
  have hps : ∀ p ∈ ps, 2 ^ f ∣ p.units := fun p hp => two_pow_dvd_of_le (hpsg p hp) hfg
  have hunits := hsplit.units
  refine ⟨List.forall_mem_cons.mpr ⟨hsplit.cut_finite, h.finite⟩, ?_, fun d hx hyps => ?_,
    ⟨⟨f, hcut, h.dvd f hsum hps⟩, h.apart⟩, ?_⟩
  · have htotal := h.total
    rw [totalUnits_cons, totalUnits_cons]
    omega
  · rw [List.forall_mem_cons] at hyps
    obtain ⟨hdsum, hdcut⟩ := hsplit.dvd hx hyps.1
    exact List.forall_mem_cons.mpr ⟨hdcut, h.dvd d hdsum hyps.2⟩
  · have hbound := abs_add_lt_overflow h.lt (dvd_add hsum (dvd_totalUnits hps)) hcut
      (hsplit.cut_le.trans_lt (abs_units_lt hy))
    rw [totalUnits_cons]
    rwa [show sum.units + totalUnits ps + cut.units = x.units + (y.units + totalUnits ps) by
      omega] at hbound

/-- A cut of zero may be left out. -/
theorem Absorbed.tail {cut : Binary64} {cuts : List Binary64} {last : Binary64}
    (h : Absorbed x ps (cut :: cuts) last) (hzero : cut.units = 0) : Absorbed x ps cuts last where
  finite := (List.forall_mem_cons.mp h.finite).2
  total := by
    have htotal := h.total
    rw [totalUnits_cons] at htotal
    omega
  dvd g hx hps := (List.forall_mem_cons.mp (h.dvd g hx hps)).2
  apart := h.apart.2
  lt := h.lt

theorem absorbed (hx : x.isFinite = true) (hps : ∀ p ∈ ps, p.isFinite = true) (hapart : Apart ps)
    (hlast : (absorb x ps).2.isFinite = true) : Absorbed x ps (absorb x ps).1 (absorb x ps).2 := by
  induction ps generalizing x with
  | nil =>
      refine ⟨List.forall_mem_nil _, ?_, fun g hdvd _ => List.forall_mem_singleton.mpr hdvd,
        apart_singleton x, ?_⟩
      · exact add_comm _ _
      · rw [totalUnits_nil, add_zero]
        exact abs_units_lt hx
  | cons y ps ih =>
      rw [List.forall_mem_cons] at hps
      obtain ⟨sum, cut, heq, -, -, hsplit⟩ := absorb_cons x y ps
      rw [heq] at hlast ⊢
      have hsum : sum.isFinite = true := by
        by_contra hinfinite
        rw [absorb_of_infinite (Bool.eq_false_iff.mpr hinfinite) hps.2] at hlast
        cases hlast
      have hboth := (ih hsum hps.2 hapart.2 hlast).cons (hsplit hx hps.1 hsum) hps.1 hapart
      simp only []
      split
      · next hzero => exact hboth.tail (units_of_isZero hzero)
      · exact hboth

/-! ## Whole summations -/

/-- While a summation goes on, what has been summed stays below the end of the row. -/
theorem absorbAll?_lt (hps : ∀ p ∈ ps, p.isFinite = true) (hapart : Apart ps)
    (hlt : |totalUnits ps| < overflow) (hxs : ∀ x ∈ xs, x.isFinite = true)
    (h : (absorbAll? ps xs).isSome = true) : |totalUnits ps + totalUnits xs| < overflow := by
  induction xs generalizing ps with
  | nil =>
      rw [totalUnits_nil, add_zero]
      exact hlt
  | cons x xs ih =>
      rw [List.forall_mem_cons] at hxs
      rw [absorbAll?] at h
      by_cases hlast : (absorb x ps).2.isFinite = true
      · have habsorbed := absorbed hxs.1 hps hapart hlast
        have htotal := habsorbed.total
        have hnext := habsorbed.lt
        simp only [hlast, if_true] at h
        rw [totalUnits_cons, show totalUnits ps + (x.units + totalUnits xs) =
          (x.units + totalUnits ps) + totalUnits xs by omega]
        rw [← htotal] at hnext ⊢
        split at h
        · next hzero =>
            rw [units_of_isZero hzero, add_zero] at hnext ⊢
            exact ih habsorbed.finite habsorbed.apart.of_append hnext hxs.2 h
        · have hall : ∀ p ∈ (absorb x ps).1 ++ [(absorb x ps).2], p.isFinite = true :=
            List.forall_mem_append.mpr ⟨habsorbed.finite, List.forall_mem_singleton.mpr hlast⟩
          have hsum : totalUnits ((absorb x ps).1 ++ [(absorb x ps).2]) =
              totalUnits (absorb x ps).1 + (absorb x ps).2.units := by
            rw [totalUnits_append, totalUnits_cons, totalUnits_nil, add_zero]
          rw [← hsum] at hnext ⊢
          exact ih hall habsorbed.apart hnext hxs.2 h
      · simp only [hlast, hxs.1, if_true, Bool.false_eq_true, if_false] at h
        cases h

/-- The sum of finite doubles, if there is one, is finite. -/
theorem isFinite_sum? {s : Binary64} (hxs : ∀ x ∈ xs, x.isFinite = true) (h : sum? xs = some s) :
    s.isFinite = true ∧ s = round (totalUnits xs) 1 := by
  have hnan : xs.any isNaN = false := by
    rw [List.any_eq_false]
    intro x hx
    have hfinite := hxs x hx
    cases x with
    | nan => cases hfinite
    | signed s m => exact Bool.false_ne_true
  rw [sum?, hnan] at h
  split at h
  · cases h
  · next hcan =>
      rw [Bool.not_eq_true, Bool.not_eq_false'] at hcan
      have hzero : |totalUnits []| < overflow := by
        rw [totalUnits_nil, abs_zero, overflow_cast]
        have := halfStep_pos
        omega
      have hlt := absorbAll?_lt (List.forall_mem_nil _) trivial hzero hxs hcan
      rw [totalUnits_nil, zero_add] at hlt
      cases h
      exact ⟨isFinite_round.mpr hlt, rfl⟩

end PushFitness.Binary64
