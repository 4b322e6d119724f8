import Mathlib.Data.Int.ModEq
import PushFitness.Machine.Effect

/-!
# Results of the machine's integer arithmetic stay in the 32-bit range

Most operations reduce their result with `wrap`, which lands in the range whatever
it is given. The remainder, the minimum and the maximum do not, and need not: each
of them stays between numbers that were in the range before. So an operation on
two integers of the range ends in the range, without a word on which of the two
ways it went.
-/

namespace PushFitness.Int32

/-- How many integers of the range are not negative, `2 ^ 31`. -/
def bound : Int := 0x80000000

/-- The signed integers of 32 bits. -/
def InRange (n : Int) : Prop := -bound ≤ n ∧ n < bound

instance (n : Int) : Decidable (InRange n) := inferInstanceAs (Decidable (_ ∧ _))

theorem wrap_inRange (n : Int) : InRange (wrap n) := by
  have hlo := Int.le_bmod (x := n) (m := 4294967296) (by omega)
  have hhi := Int.bmod_lt (x := n) (m := 4294967296) (by omega)
  simp only [InRange, wrap, bound]
  omega

theorem wrap_of_inRange {n : Int} (h : InRange n) : wrap n = n := by
  simp only [InRange, bound] at h
  rw [wrap, Int.bmod_eq_iff (by omega)]
  omega

theorem wrap_wrap (n : Int) : wrap (wrap n) = wrap n :=
  wrap_of_inRange (wrap_inRange n)

theorem zero_inRange : InRange 0 := by decide

theorem natCast_inRange {n : Nat} (h : n < 2147483648) : InRange n := by
  simp only [InRange, bound]
  omega

/-- The remainder is no further from zero than the dividend. -/
theorem remainder_inRange {a : Int} (b : Int) (ha : InRange a) : InRange (remainder a b) := by
  rw [remainder]
  split
  · exact zero_inRange
  · have hle : (a.tmod b).natAbs ≤ a.natAbs := by
      rw [Int.natAbs_tmod]
      exact Nat.mod_le _ _
    rcases Int.le_total 0 a with hpos | hneg
    · have hsign := Int.tmod_nonneg b hpos
      simp only [InRange, bound] at ha ⊢
      omega
    · have hsign := Int.tmod_nonneg b (show 0 ≤ -a by omega)
      rw [Int.neg_tmod] at hsign
      simp only [InRange, bound] at ha ⊢
      omega

/-! ## Reducing as a congruence -/

/-- Integers are reduced to the same one if they differ by a multiple of `2 ^ 32`. -/
theorem wrap_eq_wrap_iff {m n : Int} : wrap m = wrap n ↔ m ≡ n [ZMOD 2 ^ 32] := by
  constructor
  · intro h
    have hrest : wrap m % (4294967296 : Nat) = wrap n % (4294967296 : Nat) := by rw [h]
    rw [wrap, wrap, Int.bmod_emod, Int.bmod_emod] at hrest
    exact hrest
  · intro h
    have hrest : m % (4294967296 : Nat) = n % (4294967296 : Nat) := h
    rw [wrap, wrap, ← Int.emod_bmod m, ← Int.emod_bmod n, hrest]

theorem wrap_modEq (n : Int) : wrap n ≡ n [ZMOD 2 ^ 32] := wrap_eq_wrap_iff.mp (wrap_wrap n)

/-- The range has one integer of every class. -/
theorem inRange_modEq_iff {m n : Int} : InRange m ∧ m ≡ n [ZMOD 2 ^ 32] ↔ m = wrap n := by
  constructor
  · rintro ⟨hm, hmn⟩
    rw [← wrap_eq_wrap_iff, wrap_of_inRange hm] at hmn
    exact hmn
  · rintro rfl
    exact ⟨wrap_inRange n, wrap_modEq n⟩

end PushFitness.Int32

namespace PushFitness

/-- Every operation on two integers of the range ends in the range. -/
theorem IntegerOp.apply_inRange (op : IntegerOp) {a b : Int} (ha : Int32.InRange a)
    (hb : Int32.InRange b) : Int32.InRange (op.apply a b) := by
  cases op with
  | add => exact Int32.wrap_inRange _
  | sub => exact Int32.wrap_inRange _
  | mul => exact Int32.wrap_inRange _
  | div => exact Int32.wrap_inRange _
  | mod => exact Int32.remainder_inRange b ha
  | min =>
      rw [IntegerOp.apply]
      split
      · exact hb
      · exact ha
  | max =>
      rw [IntegerOp.apply]
      split
      · exact hb
      · exact ha

end PushFitness
