import PushFitness.Proofs.Machine.Stepping
import PushFitness.Proofs.Int32

/-!
# Division on the integer stack

Quotient and remainder come from two instructions that know nothing of each other, and only one
of the two reduces its result to 32 bits. They fit together all the same: the quotient times the
divisor and the remainder make the dividend, on integers of any size, and the remainder is on the
dividend's side of zero and smaller than the divisor. Nothing else does (`truncates_iff`), so this is
a description of both of them.

If the dividend is in the 32-bit range, the remainder is in the range without being reduced. The
quotient is too, but for one pair of operands: the least integer by minus one is one more than
the greatest, and is reduced to the least again.
-/

namespace PushFitness

namespace Int32

variable {a b q r : Int}

/-- What `q` and `r` have to be for a division of `a` by `b` that cuts towards zero. -/
structure Truncates (a b q r : Int) : Prop where
  sum : a = b * q + r
  small : r.natAbs < b.natAbs
  sign : r = 0 ∨ r.sign = a.sign
  within : (b * q).natAbs ≤ a.natAbs

theorem remainder_of_ne (hb : b ≠ 0) : remainder a b = a.tmod b := if_neg hb

/-- The quotient of the absolute values, negative if the signs differ. -/
theorem quotient_eq (a b : Int) : quotient a b =
    if (a < 0 ↔ b < 0) then ((a.natAbs / b.natAbs : Nat) : Int)
    else -((a.natAbs / b.natAbs : Nat) : Int) := by
  have hcut (m n : Nat) : (m : Int).tdiv n = (m / n : Nat) := rfl
  rw [quotient]
  split
  · next hsame =>
      by_cases ha : a < 0
      · have hb := hsame.mp ha
        rw [← hcut, Int.ofNat_natAbs_of_nonpos (by omega), Int.ofNat_natAbs_of_nonpos (by omega),
          Int.neg_tdiv_neg]
      · have hb := mt hsame.mpr ha
        rw [← hcut, Int.natAbs_of_nonneg (by omega), Int.natAbs_of_nonneg (by omega)]
  · next hdiffer =>
      by_cases ha : a < 0
      · have hb : ¬ b < 0 := fun hb => hdiffer (iff_of_true ha hb)
        rw [← hcut, Int.ofNat_natAbs_of_nonpos (by omega), Int.natAbs_of_nonneg (by omega),
          Int.neg_tdiv, Int.neg_neg]
      · have hb : b < 0 := Decidable.byContradiction fun hb => hdiffer (iff_of_false ha hb)
        rw [← hcut, Int.natAbs_of_nonneg (by omega), Int.ofNat_natAbs_of_nonpos (by omega),
          Int.tdiv_neg, Int.neg_neg]

/-- The remainder is what the quotient leaves. -/
theorem remainder_eq (a : Int) (hb : b ≠ 0) : remainder a b = a - b * quotient a b := by
  rw [remainder_of_ne hb, Int.tmod_def, quotient]

theorem quotient_truncates (a : Int) (hb : b ≠ 0) :
    Truncates a b (quotient a b) (remainder a b) := by
  constructor
  case sum =>
    rw [remainder_eq a hb]
    omega
  case small =>
    rw [remainder_of_ne hb, Int.natAbs_tmod]
    exact Nat.mod_lt _ (Int.natAbs_pos.mpr hb)
  case sign =>
    have hsign := Int.sign_tmod a b
    rw [← remainder_of_ne hb] at hsign
    split at hsign
    · exact .inl (Int.sign_eq_zero_iff_zero.mp hsign)
    · exact .inr hsign
  case within =>
    rw [Int.natAbs_mul, quotient, Int.natAbs_tdiv]
    exact Nat.mul_div_le _ _

/-- Two remainders on the same side of zero differ by less than the divisor, which leaves no
room for another quotient. -/
theorem Truncates.unique {q' r' : Int} (h : Truncates a b q r) (h' : Truncates a b q' r') :
    q' = q ∧ r' = r := by
  have hsum : b * (q' - q) = r - r' := by
    rw [Int.mul_sub]
    have := h.sum
    have := h'.sum
    omega
  have hless : (r - r').natAbs < b.natAbs := by
    have hsmall := h.small
    have hsmall' := h'.small
    have hsign := h.sign
    have hsign' := h'.sign
    rcases Int.lt_trichotomy a 0 with ha | rfl | ha
    · rw [Int.sign_eq_neg_one_of_neg ha, Int.sign_eq_neg_one_iff_neg] at hsign hsign'
      omega
    · rw [Int.sign_zero, Int.sign_eq_zero_iff_zero] at hsign hsign'
      omega
    · rw [Int.sign_eq_one_of_pos ha, Int.sign_eq_one_iff_pos] at hsign hsign'
      omega
  by_cases hq : q' - q = 0
  · rw [hq, Int.mul_zero] at hsum
    omega
  · have hle : b.natAbs * 1 ≤ b.natAbs * (q' - q).natAbs :=
      Nat.mul_le_mul_left _ (Int.natAbs_pos.mpr hq)
    rw [← hsum, Int.natAbs_mul] at hless
    omega

theorem truncates_iff (a q r : Int) (hb : b ≠ 0) :
    Truncates a b q r ↔ q = quotient a b ∧ r = remainder a b := by
  constructor
  · exact fun h => (quotient_truncates a hb).unique h
  · rintro ⟨rfl, rfl⟩
    exact quotient_truncates a hb

theorem quotient_zero (a : Int) : quotient a 0 = 0 := Int.tdiv_zero a

theorem remainder_zero (a : Int) : remainder a 0 = 0 := if_pos rfl

/-! ## In the 32-bit range -/

theorem quotient_neg_one (a : Int) : quotient a (-1) = -a := by
  rw [quotient, Int.tdiv_neg, Int.tdiv_one]

/-- Dividing by anything but minus one does not lead out of the range. -/
theorem quotient_inRange (ha : InRange a) (hb : b ≠ -1) : InRange (quotient a b) := by
  by_cases hone : b = 1
  · rw [hone, quotient, Int.tdiv_one]
    exact ha
  · by_cases hzero : b = 0
    · rw [hzero, quotient_zero]
      exact zero_inRange
    · have hhalf : (quotient a b).natAbs ≤ a.natAbs / 2 := by
        rw [quotient, Int.natAbs_tdiv]
        exact Nat.div_le_div_left (by omega) Nat.two_pos
      simp only [InRange, bound] at ha ⊢
      omega

theorem wrap_quotient_eq_iff (ha : InRange a) :
    wrap (quotient a b) = quotient a b ↔ ¬ (a = -bound ∧ b = -1) := by
  by_cases hb : b = -1
  · rw [hb, quotient_neg_one]
    constructor
    · rintro h ⟨rfl, -⟩
      exact absurd h (by decide)
    · intro h
      have hleast : a ≠ -bound := fun ha => h ⟨ha, rfl⟩
      refine wrap_of_inRange ?_
      simp only [InRange, bound] at ha hleast ⊢
      omega
  · exact iff_of_true (wrap_of_inRange (quotient_inRange ha hb)) fun h => hb h.2

end Int32

/-! ## The instructions -/

theorem Stacks.execute_integerOp {maxPoints : Int} {s : Stacks} {a b : Int} {rest : List Int}
    {name : String} (op : IntegerOp)
    (hname : Instruction.ofName? name = .ok (some (.integerOp op)))
    (hs : s.integer = b :: a :: rest) :
    s.execute maxPoints (.name name) = .ok { s with integer := op.apply a b :: rest } := by
  rw [execute_name hname]
  simp only [apply, hs]

/-- Quotient and remainder are the two numbers that cut a division towards zero, or both zero
when there is nothing to divide by. The quotient is found from the absolute values and the signs,
and the remainder from the quotient. On the machine the divisor is on top and the dividend below
it, both are consumed, and the results are these numbers, the quotient reduced to 32 bits. That
makes a difference to the least integer divided by minus one, and to no other pair. -/
theorem division_truncates :
    (∀ a b q r : Int, b ≠ 0 →
      (Int32.Truncates a b q r ↔ q = Int32.quotient a b ∧ r = Int32.remainder a b)) ∧
    (∀ a b : Int,
      Int32.quotient a b = (if (a < 0 ↔ b < 0) then ((a.natAbs / b.natAbs : Nat) : Int)
        else -((a.natAbs / b.natAbs : Nat) : Int)) ∧
      (b ≠ 0 → Int32.remainder a b = a - b * Int32.quotient a b)) ∧
    (∀ a : Int, Int32.quotient a 0 = 0 ∧ Int32.remainder a 0 = 0) ∧
    ∀ (maxPoints : Int) (s : Stacks) (a b : Int) (rest : List Int),
      s.integer = b :: a :: rest → Int32.InRange a →
      s.execute maxPoints (.name "integer./") =
        .ok { s with integer := Int32.wrap (Int32.quotient a b) :: rest } ∧
      s.execute maxPoints (.name "integer.%") =
        .ok { s with integer := Int32.remainder a b :: rest } ∧
      Int32.InRange (Int32.remainder a b) ∧
      (Int32.wrap (Int32.quotient a b) = Int32.quotient a b ↔ ¬ (a = -Int32.bound ∧ b = -1)) ∧
      (a = -Int32.bound ∧ b = -1 → Int32.wrap (Int32.quotient a b) = -Int32.bound) := by
  refine ⟨fun a b q r hb => Int32.truncates_iff a q r hb,
    fun a b => ⟨Int32.quotient_eq a b, Int32.remainder_eq a⟩,
    fun a => ⟨Int32.quotient_zero a, Int32.remainder_zero a⟩,
    fun maxPoints s a b rest hs ha => ?_⟩
  refine ⟨Stacks.execute_integerOp .div rfl hs, Stacks.execute_integerOp .mod rfl hs,
    Int32.remainder_inRange b ha, Int32.wrap_quotient_eq_iff ha, ?_⟩
  rintro ⟨rfl, rfl⟩
  rw [Int32.quotient_neg_one]
  decide

theorem division_truncates_least :
    (2 : Int) ≠ 0 ∧ Int32.InRange (-0x80000000) ∧ Int32.Truncates (-7) 2 (-3) (-1) ∧
    ({ Stacks.empty with integer := [-1, -0x80000000, 5] }).execute 100 (.name "integer./") =
      .ok { Stacks.empty with integer := [-0x80000000, 5] } ∧
    ({ Stacks.empty with integer := [-1, -0x80000000, 5] }).execute 100 (.name "integer.%") =
      .ok { Stacks.empty with integer := [0, 5] } := by
  obtain ⟨hpair, -, -, hmachine⟩ := division_truncates
  have hleast : Int32.InRange (-0x80000000) := by decide
  obtain ⟨hquotient, hremainder, -⟩ :=
    hmachine 100 { Stacks.empty with integer := [-1, -0x80000000, 5] } _ _ [5] rfl hleast
  exact ⟨by decide, hleast, (hpair (-7) 2 (-3) (-1) (by decide)).mpr ⟨rfl, rfl⟩, hquotient,
    hremainder⟩

end PushFitness
