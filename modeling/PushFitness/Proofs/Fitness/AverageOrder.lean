import PushFitness.Proofs.Binary64.SumOrder
import PushFitness.Proofs.Fitness.Average

/-!
# Averages can be compared

Programs are compared by their fitness, so a program that is nowhere worse than another must not
get a larger average. The exact sum of the sizes of errors grows with each of them. It is
rounded twice on the way to the average, once as a sum and once as a quotient, and a larger number
is never rounded to a smaller one (`Magnitude.nearest_mono`). The divisor is the same for lists of
the same length.

An infinite error stands outside of this. It makes the average infinite, and no average is larger.

The sizes are all that is looked at, and their exact sum does not depend on their order. The order
can only decide whether the sum is formed (`averageError_perm`).
-/

namespace PushFitness

open Magnitude (overflow nearest unitsPerOne)

variable {x y : Binary64} {errors errors' : List Binary64}

/-! ## The order of doubles -/

/-- Dividing by the same count keeps the order. -/
theorem Magnitude.divCount_mono {a b : Magnitude} (h : a.place ≤ b.place) (n : Nat) :
    (a.divCount n).place ≤ (b.divCount n).place := by
  simp only [divCount]
  split
  · exact Nat.le_refl _
  · exact nearest_mono _ (Nat.mul_le_mul_right _ (units_mono h))

namespace Binary64

/-- Less than another number, or numerically equal to it. -/
def AtMost (x y : Binary64) : Prop := x.lt y = true ∨ x.eq y = true

instance (x y : Binary64) : Decidable (x.AtMost y) :=
  inferInstanceAs (Decidable (x.lt y = true ∨ x.eq y = true))

/-- Equal up to the sign. -/
def SameSize (x y : Binary64) : Prop := x = y ∨ x = y.neg

theorem atMost_iff {s t : Bool} {a b : Magnitude} :
    (signed s a).AtMost (signed t b) ↔ signedPlace s a ≤ signedPlace t b := by
  simp only [AtMost, lt, eq, decide_eq_true_eq]
  omega

theorem atMost_magnitude {a b : Magnitude} :
    (signed false a).AtMost (signed false b) ↔ a.place ≤ b.place := by
  simp [atMost_iff, signedPlace]

theorem atMost_infinity (h : x.isNaN = false) : x.AtMost infinity := by
  cases x with
  | nan => cases h
  | signed s m =>
      have hle := m.place_le
      rw [infinity, atMost_iff]
      cases s with
      | true =>
          show -(m.place : Int) ≤ (Magnitude.infinity.place : Int)
          omega
      | false => exact Int.ofNat_le.mpr hle

/-- Only numbers have sizes that can be compared, and then their places are. -/
theorem places_of_sizes (h : x.abs.AtMost y.abs) :
    ∃ s a t b, x = signed s a ∧ y = signed t b ∧ a.place ≤ b.place := by
  cases x with
  | nan => exact absurd h (by simp [AtMost, abs, lt, eq])
  | signed s a =>
      cases y with
      | nan => exact absurd h (by simp [AtMost, abs, lt, eq])
      | signed t b => exact ⟨s, a, t, b, rfl, rfl, atMost_magnitude.mp h⟩

theorem SameSize.abs_eq (h : x.SameSize y) : x.abs = y.abs := by
  rcases h with rfl | rfl
  · rfl
  · cases y <;> rfl

/-! ## Sums of larger summands -/

theorem totalUnits_sizes_le (h : List.Forall₂ (fun e e' => e.abs.AtMost e'.abs) errors errors') :
    totalUnits (errors.map abs) ≤ totalUnits (errors'.map abs) := by
  induction h with
  | nil => exact Int.le_refl _
  | cons hsize _ ih =>
      obtain ⟨s, a, t, b, rfl, rfl, hplace⟩ := places_of_sizes hsize
      have hunits : ((signed s a).abs.units : Int) ≤ (signed t b).abs.units :=
        Int.ofNat_le.mpr (Magnitude.units_mono hplace)
      rw [List.map_cons, List.map_cons, totalUnits_cons, totalUnits_cons]
      omega

theorem round_mono {v v' : Int} (hv : 0 ≤ v) (h : v ≤ v') : ∃ a b,
    round v 1 = signed false a ∧ round v' 1 = signed false b ∧ a.place ≤ b.place :=
  ⟨_, _, round_of_nonneg hv, round_of_nonneg (hv.trans h), Magnitude.nearest_mono 1 (by omega)⟩

end Binary64

/-! ## Averages of larger errors -/

open Binary64 (AtMost SameSize FailsExactly totalUnits sum?_perm)

variable {x' : Binary64}

theorem numbers_of_sizes (h : List.Forall₂ (fun e e' => e.abs.AtMost e'.abs) errors errors') :
    (∀ e ∈ errors, e.isNaN = false) ∧ ∀ e' ∈ errors', e'.isNaN = false := by
  induction h with
  | nil => exact ⟨List.forall_mem_nil _, List.forall_mem_nil _⟩
  | cons hsize _ ih =>
      obtain ⟨s, a, t, b, rfl, rfl, -⟩ := Binary64.places_of_sizes hsize
      exact ⟨List.forall_mem_cons.mpr ⟨rfl, ih.1⟩, List.forall_mem_cons.mpr ⟨rfl, ih.2⟩⟩

/-- Errors that are no larger than finite ones are finite. -/
theorem finite_of_sizes (h : List.Forall₂ (fun e e' => e.abs.AtMost e'.abs) errors errors')
    (hfinite : ∀ e' ∈ errors', e'.isFinite = true) : ∀ e ∈ errors, e.isFinite = true := by
  induction h with
  | nil => exact List.forall_mem_nil _
  | cons hsize _ ih =>
      obtain ⟨s, a, t, b, rfl, rfl, hplace⟩ := Binary64.places_of_sizes hsize
      obtain ⟨hb, hrest⟩ := List.forall_mem_cons.mp hfinite
      refine List.forall_mem_cons.mpr ⟨?_, ih hrest⟩
      rw [Binary64.isFinite, Bool.not_eq_true', ← Bool.not_eq_true, Magnitude.isInfinite_iff] at hb ⊢
      omega

theorem averageError_mono
    (hsizes : List.Forall₂ (fun e e' => e.abs.AtMost e'.abs) errors errors')
    (h : averageError errors = .ok x) (h' : averageError errors' = .ok x') : x.AtMost x' := by
  obtain ⟨hnan, hnan'⟩ := numbers_of_sizes hsizes
  by_cases hinfinite : ∃ e' ∈ errors', e'.isInfinite = true
  · rw [averageError_of_infinite hinfinite] at h'
    cases h'
    exact Binary64.atMost_infinity (averageError_eq_ok hnan h).1.1
  · have hfinite' := finite_of_numbers hnan' hinfinite
    obtain ⟨a, -, hround, rfl⟩ := average_of_finite (finite_of_sizes hsizes hfinite') h
    obtain ⟨b, -, hround', rfl⟩ := average_of_finite hfinite' h'
    obtain ⟨c, d, hc, hd, hplace⟩ := Binary64.round_mono (Binary64.totalUnits_abs_nonneg errors)
      (Binary64.totalUnits_sizes_le hsizes)
    cases hround.symm.trans hc
    cases hround'.symm.trans hd
    rw [← hsizes.length_eq]
    exact Binary64.atMost_magnitude.mpr (Magnitude.divCount_mono hplace errors.length)

/-! ## Averages in another order -/

theorem averageError_congr (h : errors.map Binary64.abs = errors'.map Binary64.abs) :
    averageError errors = averageError errors' := by
  simp only [averageError, h]

theorem averageError_perm (hnan : ∀ e ∈ errors, e.isNaN = false) (hperm : errors'.Perm errors)
    (h : averageError errors = .ok x) : averageError errors' = .ok x ∨
      averageError errors' = .error .sumOverflow ∧ ¬ FailsExactly (errors'.map Binary64.abs) ∧
        overflow ≤ 6 * totalUnits (errors'.map Binary64.abs) := by
  have hinfinite : (∃ e ∈ errors', e.isInfinite = true) ↔ ∃ e ∈ errors, e.isInfinite = true := by
    simp only [hperm.mem_iff]
  by_cases hcases : ∃ e ∈ errors, e.isInfinite = true
  · -- no sum is formed then, so there is nothing that could fail
    rw [averageError_of_infinite (hinfinite.mpr hcases)]
    rw [averageError_of_infinite hcases] at h
    exact .inl h
  · have hnonempty := nonempty_of_average h
    have hnonempty' : errors' ≠ [] := fun hnil => hnonempty (hnil ▸ hperm).nil_eq.symm
    have hfinite := finite_of_numbers hnan hcases
    have hfinite' : ∀ e ∈ errors', e.isFinite = true := fun e he => hfinite e (hperm.subset he)
    rw [averageError_of_finite hnonempty hfinite] at h
    rw [averageError_of_finite hnonempty' hfinite', hperm.length_eq]
    cases hsum : Binary64.sum? (errors.map Binary64.abs) with
    | none =>
        rw [hsum] at h
        cases h
    | some s =>
        rw [hsum] at h
        rcases sum?_perm (sizes_nonneg hfinite) (hperm.map Binary64.abs) hsum with
          hsame | ⟨hnone, hlate⟩
        · rw [hsame]
          exact .inl h
        · rw [hnone]
          exact .inr ⟨rfl, hlate⟩

/-- Two lists of errors have the same average, if both have one, when one of them is a
rearrangement of the other up to the signs. And if no error is larger in size than the error at
the same place of another list, the average is not larger. -/
theorem averages_are_ordered (hnan : ∀ e ∈ errors, e.isNaN = false)
    (h : averageError errors = .ok x) (h' : averageError errors' = .ok x') :
    ((∃ rearranged, rearranged.Perm errors ∧ List.Forall₂ SameSize errors' rearranged) → x' = x) ∧
    (List.Forall₂ (fun e e' => e.abs.AtMost e'.abs) errors errors' → x.AtMost x') := by
  refine ⟨?_, fun hsizes => averageError_mono hsizes h h'⟩
  rintro ⟨rearranged, hperm, hsame⟩
  have hsizes : errors'.map Binary64.abs = rearranged.map Binary64.abs := by
    rw [← List.forall₂_eq_eq_eq, List.forall₂_map_left_iff, List.forall₂_map_right_iff]
    exact hsame.imp fun _ _ hsign => hsign.abs_eq
  rw [averageError_congr hsizes] at h'
  rcases averageError_perm hnan hperm h with hvalue | ⟨hfails, -⟩
  · rw [hvalue] at h'
    exact (Except.ok.inj h').symm
  · rw [hfails] at h'
    cases h'

theorem averages_are_ordered_three :
    averageError [.ofInt 1, .ofInt (-2)] = .ok ((Binary64.ofInt 3).div (.ofInt 2)) ∧
    averageError [.ofInt 2, .ofInt 1] = .ok ((Binary64.ofInt 3).div (.ofInt 2)) ∧
    averageError [.ofInt (-3), .infinity] = .ok .infinity ∧
    ((Binary64.ofInt 3).div (.ofInt 2)).AtMost .infinity := by
  have hnan : ∀ e ∈ [Binary64.ofInt 1, .ofInt (-2)], e.isNaN = false := by decide +kernel
  have hfirst : averageError [.ofInt 1, .ofInt (-2)] = .ok ((Binary64.ofInt 3).div (.ofInt 2)) := by
    decide +kernel
  have hinfinite : averageError [.ofInt (-3), .infinity] = .ok .infinity := by decide +kernel
  obtain ⟨x, hx⟩ : ∃ x, averageError [.ofInt 2, .ofInt 1] = .ok x :=
    ⟨(Binary64.ofInt 3).div (.ofInt 2), by decide +kernel⟩
  have hsign : Binary64.ofInt 2 = (Binary64.ofInt (-2)).neg := by decide +kernel
  have hsame := (averages_are_ordered hnan hfirst hx).1
    ⟨[.ofInt (-2), .ofInt 1], .swap _ _ _, .cons (.inr hsign) (.cons (.inl rfl) .nil)⟩
  have hsizes : (Binary64.ofInt 1).abs.AtMost (Binary64.ofInt (-3)).abs ∧
      (Binary64.ofInt (-2)).abs.AtMost Binary64.infinity.abs := by
    decide +kernel
  have hless := (averages_are_ordered hnan hfirst hinfinite).2
    (.cons hsizes.1 (.cons hsizes.2 .nil))
  exact ⟨hfirst, hsame ▸ hx, hinfinite, hless⟩

end PushFitness
