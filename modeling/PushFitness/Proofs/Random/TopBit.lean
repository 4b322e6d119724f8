import Mathlib.Data.FinEnum
import Mathlib.Data.Fintype.Pigeonhole
import Mathlib.Data.Nat.Factorization.Basic
import PushFitness.Proofs.Random.Recurrence

/-!
# The top bit of the words does not stay set

A generator hands out a word without its top bit again and again (`Sound.exists_topBit_false`). No
counting of states shows this: there are states with long runs of words that have the top bit, and
it has to be excluded that such a run never ends.

The reason is that the rule for the words is linear in their bits. Take any sequence of bits that can
be read off the words (`Reading`). One place on, it is the sum of another such sequence 624 places on
and 397 places on (`Reading.delayed`), and so it goes with twice the distances and four times the
distances, as all mixed terms cancel (`Reading.delayed_two_pow`). Now let a reading be set at all
places. Then some other reading changes from every place to the one 227 times a power of two behind
it. But the words repeat themselves after some number of places, since there are finitely many
states; and with the power of two that is in this number, an odd number of these changes comes back
to the same bit.
-/

namespace PushFitness.Twister

/-! ## Bits of words -/

/-- A bit of a word. -/
def bit (w : UInt32) (i : Nat) : Bool := w.toBitVec.getLsbD i

theorem bit_of_le (w : UInt32) {i : Nat} (h : 32 ≤ i) : bit w i = false :=
  BitVec.getLsbD_of_ge _ i h

theorem bit_xor (v w : UInt32) (i : Nat) : bit (v ^^^ w) i = (bit v i ^^ bit w i) := by
  rw [bit, UInt32.toBitVec_xor, BitVec.getLsbD_xor]
  rfl

theorem bit_and (v w : UInt32) (i : Nat) : bit (v &&& w) i = (bit v i && bit w i) := by
  rw [bit, UInt32.toBitVec_and, BitVec.getLsbD_and]
  rfl

theorem bit_or (v w : UInt32) (i : Nat) : bit (v ||| w) i = (bit v i || bit w i) := by
  rw [bit, UInt32.toBitVec_or, BitVec.getLsbD_or]
  rfl

section Shift

variable {w n : UInt32}

theorem toNat_mod_of_lt (hn : n.toNat < 32) : (n.toBitVec % 32).toNat = n.toNat := by
  rw [BitVec.toNat_umod]
  exact Nat.mod_eq_of_lt hn

theorem bit_shiftRight (hn : n.toNat < 32) (i : Nat) : bit (w >>> n) i = bit w (n.toNat + i) := by
  rw [bit, UInt32.toBitVec_shiftRight, BitVec.ushiftRight_eq', BitVec.getLsbD_ushiftRight,
    toNat_mod_of_lt hn, bit]

theorem bit_shiftLeft (hn : n.toNat < 32) {i : Nat} (hi : i < 32) :
    bit (w <<< n) i = (decide (n.toNat ≤ i) && bit w (i - n.toNat)) := by
  rw [bit, UInt32.toBitVec_shiftLeft, BitVec.shiftLeft_eq', BitVec.getLsbD_shiftLeft,
    toNat_mod_of_lt hn, bit]
  by_cases h : n.toNat ≤ i
  · simp [hi, h]
  · simp [hi, h]

end Shift

/-- The top bit of a word that is handed out. -/
theorem bit_temper (w : UInt32) :
    bit (temper w) 31 = (bit w 31 ^^ bit w 24 ^^ (bit w 16 ^^ bit w 27)) := by
  have hseven : bit 0x9D2C5680 31 = true ∧ bit 0x9D2C5680 16 = false := by decide
  have hfifteen : bit 0xEFC60000 31 = true := by decide
  simp only [temper, bit_xor, bit_and]
  rw [bit_shiftRight (by decide), bit_shiftLeft (by decide) (by decide),
    bit_shiftLeft (by decide) (by decide)]
  simp [bit_xor, bit_and, bit_shiftRight, bit_shiftLeft, bit_of_le, hseven, hfifteen]

/-- The bits that are added if the lowest bit of a word is set. -/
def feedback (i : Nat) : Bool := bit 0x9908B0DF i

theorem bit_zero {i : Nat} (hi : i < 32) : bit 0 i = false := by
  have hzero : ∀ j < 32, bit 0 j = false := by decide
  exact hzero i hi

theorem and_one_eq_zero_iff (w : UInt32) : w &&& 1 = 0 ↔ bit w 0 = false := by
  have hone : ∀ j < 32, bit 1 j = decide (j = 0) := by decide
  constructor
  · intro h
    have hzero : bit (w &&& 1) 0 = false := by
      rw [h]
      rfl
    rwa [bit_and, hone 0 (by decide), decide_eq_true rfl, Bool.and_true] at hzero
  · intro h
    refine UInt32.toBitVec_inj.mp (BitVec.eq_of_getLsbD_eq fun j hj => ?_)
    show bit (w &&& 1) j = bit 0 j
    rw [bit_and, hone j hj, bit_zero hj]
    by_cases hj : j = 0
    · rw [hj, h]
      rfl
    · rw [decide_eq_false hj, Bool.and_false]

/-- The top bit of one word and the other bits of another. -/
theorem bit_joined (w next : UInt32) {i : Nat} (hi : i < 32) :
    bit ((w &&& 0x80000000) ||| (next &&& 0x7FFFFFFF)) i =
      if i = 31 then bit w 31 else bit next i := by
  have htop : ∀ j < 32, bit 0x80000000 j = decide (j = 31) := by decide
  have hrest : ∀ j < 32, bit 0x7FFFFFFF j = decide (j ≠ 31) := by decide
  rw [bit_or, bit_and, bit_and, htop i hi, hrest i hi]
  by_cases h : i = 31
  · simp [h]
  · simp [h]

/-- The rule for words, bit by bit. -/
theorem bit_mixed (w next far : UInt32) {i : Nat} (hi : i < 32) : bit (mixed w next far) i =
    (bit far i ^^ (if i = 30 then bit w 31 else bit next (i + 1)) ^^
      (bit next 0 && feedback i)) := by
  have hshifted : bit (((w &&& 0x80000000) ||| (next &&& 0x7FFFFFFF)) >>> 1) i =
      if i = 30 then bit w 31 else bit next (i + 1) := by
    have hplace : (1 : UInt32).toNat + i = i + 1 := Nat.add_comm 1 i
    rw [bit_shiftRight (by decide), hplace]
    by_cases hlast : i + 1 < 32
    · rw [bit_joined w next hlast]
      by_cases h : i = 30
      · rw [if_pos h, if_pos (by omega)]
      · rw [if_neg h, if_neg (by omega)]
    · rw [if_neg (by omega), bit_of_le _ (by omega), bit_of_le _ (by omega)]
  have hadded (y : UInt32) : bit (if y &&& 1 = 0 then 0 else 0x9908B0DF) i =
      (bit y 0 && feedback i) := by
    cases hy : bit y 0 with
    | false => rw [if_pos ((and_one_eq_zero_iff y).mpr hy), bit_zero hi, Bool.false_and]
    | true =>
        have hodd : ¬ y &&& 1 = 0 := by simp [and_one_eq_zero_iff, hy]
        rw [if_neg hodd, Bool.true_and]
        rfl
  rw [mixed, bit_xor, bit_xor, hshifted, hadded, bit_joined w next (by decide)]
  rfl

/-! ## Sequences of bits -/

/-- A sequence of words in which every word is made of three earlier ones. -/
def Recurs (words : Nat → UInt32) : Prop :=
  ∀ k, words (k + size) = mixed (words k) (words (k + 1)) (words (k + 397))

/-- A sequence of bits that is read off a sequence of words: one bit of each, a sum of such
sequences, or one of them from the next place on. -/
inductive Reading (words : Nat → UInt32) : (Nat → Bool) → Prop
  | bit (i : Nat) : Reading words fun k => bit (words k) i
  | add {f g : Nat → Bool} (hf : Reading words f) (hg : Reading words g) :
      Reading words fun k => f k ^^ g k
  | tail {f : Nat → Bool} (hf : Reading words f) : Reading words fun k => f (k + 1)

section Reading

variable {words : Nat → UInt32} {f : Nat → Bool}

/-- A bit, and the top bit if the two are added to at the same time. -/
def paired (words : Nat → UInt32) (i k : Nat) : Bool :=
  bit (words k) i ^^ (feedback i && bit (words k) 31)

theorem reading_paired (i : Nat) : Reading words (paired words i) := by
  cases hi : feedback i with
  | false =>
      have hsame : paired words i = fun k => bit (words k) i := by
        funext k
        rw [paired, hi, Bool.false_and, Bool.xor_false]
      exact hsame ▸ .bit i
  | true =>
      have hsum : paired words i = fun k => bit (words k) i ^^ bit (words k) 31 := by
        funext k
        rw [paired, hi, Bool.true_and]
      exact hsum ▸ .add (.bit i) (.bit 31)

/-- The lowest bit of a word comes back as the top bit. -/
theorem Recurs.bit_zero_eq (h : Recurs words) (k : Nat) : bit (words (k + 1)) 0 =
    (bit (words (k + size)) 31 ^^ bit (words (k + 397)) 31) := by
  have hfeedback : feedback 31 = true := by decide
  have hsum : ∀ a b : Bool, b = (a ^^ false ^^ (b && true) ^^ a) := by decide
  rw [h k, bit_mixed _ _ _ (by decide), hfeedback, if_neg (by decide), bit_of_le _ (Nat.le_refl 32)]
  exact hsum _ _

/-- Every other bit comes back one place below. -/
theorem Recurs.bit_succ_eq (h : Recurs words) {i : Nat} (hi : i < 31) (k : Nat) :
    (if i = 30 then bit (words k) 31 else bit (words (k + 1)) (i + 1)) =
      (paired words i (k + size) ^^ paired words i (k + 397)) := by
  have hsum : ∀ a b c d e : Bool,
      b = ((a ^^ b ^^ ((c ^^ d) && e)) ^^ (e && c) ^^ (a ^^ (e && d))) := by decide
  have hi : i < 32 := by omega
  have hbit := bit_mixed (words k) (words (k + 1)) (words (k + 397)) hi
  rw [← h k, h.bit_zero_eq] at hbit
  rw [paired, paired, hbit]
  exact hsum _ _ _ _ _

/-- What is read off the words is, one place on, the sum of another reading at two later places. -/
theorem Reading.delayed (hwords : Recurs words) (h : Reading words f) :
    ∃ g, Reading words g ∧ ∀ k, f (k + 1) = (g (k + size) ^^ g (k + 397)) := by
  induction h with
  | bit i =>
      by_cases hlarge : 32 ≤ i
      · refine ⟨_, .bit i, fun k => ?_⟩
        simp only [bit_of_le _ hlarge]
        rfl
      · by_cases hzero : i = 0
        · exact ⟨_, .bit 31, fun k => hzero ▸ hwords.bit_zero_eq k⟩
        · obtain ⟨i, rfl⟩ : ∃ j, i = j + 1 := ⟨i - 1, by omega⟩
          by_cases htop : i = 30
          · refine ⟨_, (reading_paired i).tail, fun k => ?_⟩
            have hbit := hwords.bit_succ_eq (i := i) (by omega) (k + 1)
            rw [if_pos htop] at hbit
            rw [Nat.add_right_comm k size 1, Nat.add_right_comm k 397 1, ← hbit, htop]
          · refine ⟨_, reading_paired i, fun k => ?_⟩
            have hbit := hwords.bit_succ_eq (i := i) (by omega) k
            rwa [if_neg htop] at hbit
  | add hf hg ihf ihg =>
      obtain ⟨f', hf', hfsum⟩ := ihf
      obtain ⟨g', hg', hgsum⟩ := ihg
      refine ⟨_, .add hf' hg', fun k => ?_⟩
      have hsum : ∀ a b c d : Bool, (a ^^ b ^^ (c ^^ d)) = (a ^^ c ^^ (b ^^ d)) := by decide
      show (_ ^^ _) = _
      rw [hfsum k, hgsum k]
      exact hsum _ _ _ _
  | tail hf ih =>
      obtain ⟨g, hg, hsum⟩ := ih
      refine ⟨_, hg.tail, fun k => (hsum (k + 1)).trans ?_⟩
      rw [Nat.add_right_comm k 1 size, Nat.add_right_comm k 1 397]

/-- The same with distances that are larger by a power of two: in a sum of two sums the two readings
at the same place cancel. -/
theorem Reading.delayed_two_pow (hwords : Recurs words) (r : Nat) (h : Reading words f) :
    ∃ g, Reading words g ∧
      ∀ k, f (k + 2 ^ r) = (g (k + size * 2 ^ r) ^^ g (k + 397 * 2 ^ r)) := by
  induction r generalizing f with
  | zero => simpa using h.delayed hwords
  | succ r ih =>
      obtain ⟨g, hg, hsum⟩ := ih h
      obtain ⟨g', hg', hsum'⟩ := ih hg
      refine ⟨g', hg', fun k => ?_⟩
      have hcancel : ∀ a b c : Bool, (a ^^ b ^^ (b ^^ c)) = (a ^^ c) := by decide
      have hdistance (a : Nat) : k + a * 2 ^ r + a * 2 ^ r = k + a * 2 ^ (r + 1) := by
        rw [Nat.add_assoc, ← Nat.mul_add, ← Nat.two_mul, Nat.pow_succ, Nat.mul_comm 2]
      have hdouble : k + 2 ^ (r + 1) = (k + 2 ^ r) + 2 ^ r := by rw [Nat.pow_succ]; omega
      have hfirst : k + 2 ^ r + size * 2 ^ r = (k + size * 2 ^ r) + 2 ^ r := by omega
      have hsecond : k + 2 ^ r + 397 * 2 ^ r = (k + 397 * 2 ^ r) + 2 ^ r := by omega
      rw [hdouble, hsum, hfirst, hsecond, hsum', hsum',
        Nat.add_right_comm k (397 * 2 ^ r) (size * 2 ^ r), hcancel, hdistance, hdistance]

/-! ## The words repeat themselves -/

/-- Words that agree at as many places as there are in a block agree at all later ones. -/
theorem Recurs.agree (h : Recurs words) {a b : Nat}
    (hblock : ∀ i < size, words (a + i) = words (b + i)) (k : Nat) :
    words (a + k) = words (b + k) := by
  induction k using Nat.strong_induction_on with
  | _ k ih =>
      have hlarge : 397 < size := by decide
      by_cases hk : k < size
      · exact hblock k hk
      · obtain ⟨j, rfl⟩ : ∃ j, k = j + size := ⟨k - size, by omega⟩
        rw [← Nat.add_assoc, ← Nat.add_assoc, h, h, Nat.add_assoc a, Nat.add_assoc a,
          Nat.add_assoc b, Nat.add_assoc b, ih j (by omega), ih (j + 1) (by omega),
          ih (j + 397) (by omega)]

/-- There are finitely many blocks, so one of them comes back, and everything behind it as well. -/
theorem Recurs.exists_period (h : Recurs words) :
    ∃ start p, 0 < p ∧ ∀ k, words (start + k + p) = words (start + k) := by
  obtain ⟨a, b, hne, hsame⟩ :=
    Finite.exists_ne_map_eq_of_infinite fun k (i : Fin size) => words (k + i)
  have hblock (i : Nat) (hi : i < size) : words (a + i) = words (b + i) :=
    congrFun hsame ⟨i, hi⟩
  rcases Nat.lt_or_gt_of_ne hne with hlt | hlt
  · refine ⟨a, b - a, by omega, fun k => ?_⟩
    rw [h.agree hblock k]
    congr 1
    omega
  · refine ⟨b, a - b, by omega, fun k => ?_⟩
    rw [← h.agree hblock k]
    congr 1
    omega

/-- What is read off the words repeats itself with them. -/
theorem Reading.periodic (h : Reading words f) {start p : Nat}
    (hp : ∀ k, words (start + k + p) = words (start + k)) (k n : Nat) :
    f (start + k + p * n) = f (start + k) := by
  have hone (k : Nat) : f (start + k + p) = f (start + k) := by
    induction h generalizing k with
    | bit i => exact congrArg (Twister.bit · i) (hp k)
    | add hf hg ihf ihg =>
        show (_ ^^ _) = (_ ^^ _)
        rw [ihf, ihg]
    | tail hf ih =>
        have hnext := ih (k + 1)
        rwa [← Nat.add_assoc, Nat.add_right_comm _ 1 p] at hnext
  induction n with
  | zero => rfl
  | succ n ih =>
      have hplace : start + k + p * (n + 1) = start + (k + p * n) + p := by
        rw [Nat.mul_succ]
        omega
      rw [hplace, hone, ← Nat.add_assoc, ih]

/-- No reading is set at all places. -/
theorem Reading.exists_false (hwords : Recurs words) (h : Reading words f) :
    ∃ k, f k = false := by
  by_contra hnone
  have hset (k : Nat) : f k = true := by
    cases hk : f k with
    | false => exact absurd ⟨k, hk⟩ hnone
    | true => rfl
  obtain ⟨start, p, hpos, hp⟩ := hwords.exists_period
  obtain ⟨r, q, hq, rfl⟩ := Nat.exists_eq_two_pow_mul_odd (Nat.pos_iff_ne_zero.mp hpos)
  obtain ⟨g, hg, hsum⟩ := h.delayed_two_pow hwords r
  -- the two readings are at a distance of 624 less 397 places, times the power of two
  have hchange (l : Nat) (hl : 397 * 2 ^ r ≤ l) : g (l + 227 * 2 ^ r) = !g l := by
    obtain ⟨k, rfl⟩ : ∃ k, l = k + 397 * 2 ^ r := ⟨l - 397 * 2 ^ r, by omega⟩
    have hplace : k + 397 * 2 ^ r + 227 * 2 ^ r = k + size * 2 ^ r := by
      show _ = k + 624 * 2 ^ r
      omega
    have hdiffer := hsum k
    rw [hset, ← hplace] at hdiffer
    revert hdiffer
    cases g (k + 397 * 2 ^ r) <;> cases g (k + 397 * 2 ^ r + 227 * 2 ^ r) <;> decide
  have hchanges (n : Nat) : g (start + 397 * 2 ^ r + 227 * 2 ^ r * n) =
      (g (start + 397 * 2 ^ r) ^^ decide (n % 2 = 1)) := by
    induction n with
    | zero => simp
    | succ n ih =>
        rw [Nat.mul_succ, ← Nat.add_assoc, hchange _ (by omega), ih]
        rcases Nat.mod_two_eq_zero_or_one n with hn | hn
        · rw [decide_eq_false (by omega), decide_eq_true (by omega)]
          simp
        · rw [decide_eq_true (by omega), decide_eq_false (by omega)]
          simp
  have hback := hchanges q
  have hplace : 227 * 2 ^ r * q = 2 ^ r * q * 227 := by
    rw [Nat.mul_assoc, Nat.mul_comm]
  rw [hplace, hg.periodic hp, decide_eq_true (Nat.odd_iff.mp hq)] at hback
  simp at hback

end Reading

/-! ## The words of a generator -/

/-- A word without the top bit is handed out at some time. -/
theorem Sound.exists_topBit_false {t : Twister} (h : t.Sound) :
    ∃ k, bit (temper (t.stream k)) 31 = false := by
  have hreading : Reading t.stream fun k => bit (t.stream k) 31 ^^ bit (t.stream k) 24 ^^
      (bit (t.stream k) 16 ^^ bit (t.stream k) 27) :=
    .add (.add (.bit 31) (.bit 24)) (.add (.bit 16) (.bit 27))
  obtain ⟨k, hk⟩ := hreading.exists_false h.stream_add_size
  exact ⟨k, (bit_temper _).trans hk⟩

end PushFitness.Twister
