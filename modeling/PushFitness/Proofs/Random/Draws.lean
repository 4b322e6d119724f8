import Mathlib.Algebra.Group.Nat.Even
import PushFitness.Proofs.Random.TopBit
import PushFitness.Random.Sample

/-!
# What is drawn

The numbers of a sample are the numbers of the generator that are below the bound, in their order
(`sample_eq`). So where enough of them come sooner or later (`Yields`), a sample is as long as it
should be, and a longer one begins with a shorter one (`Yields.sample`).

For bounds of at most 32 bits there are as many as are asked for, whatever the seed
(`Sound.yields`): a number is refused only if its top bit is set, which is the top bit of a word.
-/

namespace PushFitness.Twister

/-- The next numbers of a given count of bits. -/
def numbers (count : Nat) : (n : Nat) → Twister → List Nat
  | 0, _ => []
  | n + 1, t => (t.bits count).1 :: numbers count n (t.bits count).2

/-- The numbers below a bound among the next ones that have as many bits as the bound. -/
def accepted (bound n : Nat) (t : Twister) : List Nat :=
  (t.numbers (width bound) n).filter (· < bound)

/-- Sooner or later there are so many numbers below a bound. -/
def Yields (bound count : Nat) (t : Twister) : Prop := ∃ n, count ≤ (t.accepted bound n).length

section Sample

variable {bound count n : Nat} {t : Twister}

theorem accepted_of_lt (h : (t.bits (width bound)).1 < bound) : t.accepted bound (n + 1) =
    (t.bits (width bound)).1 :: (t.bits (width bound)).2.accepted bound n := by
  rw [accepted, numbers, List.filter_cons, if_pos (decide_eq_true h)]
  rfl

theorem accepted_of_le (h : bound ≤ (t.bits (width bound)).1) :
    t.accepted bound (n + 1) = (t.bits (width bound)).2.accepted bound n := by
  rw [accepted, numbers, List.filter_cons, if_neg (by simpa using h)]
  rfl

theorem below_eq : t.below bound = if (t.bits (width bound)).1 < bound
    then some (t.bits (width bound)) else (t.bits (width bound)).2.below bound := by
  rw [below, repeatM_eq_of_monadTail, repeatM.body, keepOrRedraw]
  split <;> rfl

theorem below_of_lt (h : (t.bits (width bound)).1 < bound) :
    t.below bound = some (t.bits (width bound)) := by
  rw [below_eq, if_pos h]

theorem below_of_le (h : bound ≤ (t.bits (width bound)).1) :
    t.below bound = (t.bits (width bound)).2.below bound := by
  rw [below_eq, if_neg (Nat.not_lt.mpr h)]

theorem sample_of_lt (h : (t.bits (width bound)).1 < bound) : t.sample bound (count + 1) =
    ((t.bits (width bound)).2.sample bound count).map ((t.bits (width bound)).1 :: ·) := by
  rw [sample, below_of_lt h]

theorem sample_of_le (h : bound ≤ (t.bits (width bound)).1) :
    t.sample bound count = (t.bits (width bound)).2.sample bound count := by
  cases count with
  | zero => rfl
  | succ count => rw [sample, below_of_le h, sample]

/-- A sample consists of the first numbers below the bound. -/
theorem sample_eq (h : count ≤ (t.accepted bound n).length) :
    t.sample bound count = some ((t.accepted bound n).take count) := by
  induction n generalizing count t with
  | zero =>
      obtain rfl : count = 0 := Nat.le_zero.mp h
      rfl
  | succ n ih =>
      rcases Nat.lt_or_ge (t.bits (width bound)).1 bound with hlt | hle
      · rw [accepted_of_lt hlt] at h ⊢
        cases count with
        | zero => rfl
        | succ count =>
            rw [sample_of_lt hlt, ih (Nat.le_of_succ_le_succ h)]
            rfl
      · rw [accepted_of_le hle] at h ⊢
        rw [sample_of_le hle, ih h]

/-! ## Where enough numbers come -/

theorem Yields.of_le (hle : bound ≤ (t.bits (width bound)).1)
    (h : (t.bits (width bound)).2.Yields bound count) : t.Yields bound count := by
  obtain ⟨n, hn⟩ := h
  exact ⟨n + 1, by rwa [accepted_of_le hle]⟩

theorem Yields.of_lt (hlt : (t.bits (width bound)).1 < bound)
    (h : (t.bits (width bound)).2.Yields bound count) : t.Yields bound (count + 1) := by
  obtain ⟨n, hn⟩ := h
  exact ⟨n + 1, by rw [accepted_of_lt hlt]; exact Nat.succ_le_succ hn⟩

/-- What a drawing that ends gives: so many numbers, all below the bound, and those of a smaller
sample are its first. -/
theorem Yields.sample (h : t.Yields bound count) : ∃ is, t.sample bound count = some is ∧
    is.length = count ∧ (∀ i ∈ is, i < bound) ∧
    ∀ fewer ≤ count, t.sample bound fewer = some (is.take fewer) := by
  obtain ⟨n, hn⟩ := h
  refine ⟨_, sample_eq hn, List.length_take_of_le hn, fun i hi => ?_, fun fewer hfewer => ?_⟩
  · have haccepted : i ∈ t.accepted bound n := List.mem_of_mem_take hi
    simpa using (List.mem_filter.mp haccepted).2
  · rw [sample_eq (Nat.le_trans hfewer hn), List.take_take, Nat.min_eq_left hfewer]

end Sample

/-! ## Bounds of at most 32 bits -/

section Words

variable {bound count : Nat} {t : Twister}

theorem width_le (hpos : 0 < bound) (hbound : bound < UInt32.size) : width bound ≤ 32 :=
  (Nat.log2_lt (Nat.pos_iff_ne_zero.mp hpos)).mpr hbound

/-- A number of at most 32 bits is cut from the top of a word. -/
theorem bits_of_le (h : count ≤ 32) :
    t.bits count = (t.word.1.toNat >>> (32 - count), t.word.2) := by
  rw [bits, if_pos h]

/-- Without the top bit of its word a number is below the bound. -/
theorem Sound.bits_lt (h : t.Sound) (hpos : 0 < bound) (hbound : bound < UInt32.size)
    (htop : bit (temper (t.stream 0)) 31 = false) : (t.bits (width bound)).1 < bound := by
  have hwidth := width_le hpos hbound
  rw [bits_of_le hwidth, h.word.1]
  have hsmall : (temper (t.stream 0)).toNat < 2 ^ 31 := by
    have hword : (temper (t.stream 0)).toNat < 2 ^ 32 := UInt32.toNat_lt _
    have htest : (temper (t.stream 0)).toNat.testBit 31 = false := htop
    rw [Nat.testBit_eq_decide_div_mod_eq, decide_eq_false_iff_not] at htest
    omega
  have hpower : 2 ^ 31 = 2 ^ bound.log2 * 2 ^ (32 - width bound) := by
    rw [← Nat.pow_add, width]
    rw [width] at hwidth
    congr 1
    omega
  calc (temper (t.stream 0)).toNat >>> (32 - width bound)
      = (temper (t.stream 0)).toNat / 2 ^ (32 - width bound) := Nat.shiftRight_eq_div_pow _ _
    _ < 2 ^ bound.log2 := Nat.div_lt_of_lt_mul (by rw [Nat.mul_comm, ← hpower]; exact hsmall)
    _ ≤ bound := Nat.log2_self_le (Nat.pos_iff_ne_zero.mp hpos)

theorem Sound.bits_sound (h : t.Sound) (hpos : 0 < bound) (hbound : bound < UInt32.size) :
    (t.bits (width bound)).2.Sound ∧
      ∀ k, (t.bits (width bound)).2.stream k = t.stream (k + 1) := by
  rw [bits_of_le (width_le hpos hbound)]
  exact h.word.2

/-- However many numbers below a bound of at most 32 bits are asked for, they come. -/
theorem Sound.yields (h : t.Sound) (hpos : 0 < bound) (hbound : bound < UInt32.size)
    (count : Nat) : t.Yields bound count := by
  induction count generalizing t with
  | zero => exact ⟨0, Nat.zero_le _⟩
  | succ count ih =>
      obtain ⟨k, hk⟩ := h.exists_topBit_false
      -- the words in front of the one without the top bit may be refused
      induction k generalizing t with
      | zero => exact (ih (h.bits_sound hpos hbound).1).of_lt (h.bits_lt hpos hbound hk)
      | succ k ihk =>
          obtain ⟨hsound, hstream⟩ := h.bits_sound hpos hbound
          rcases Nat.lt_or_ge (t.bits (width bound)).1 bound with hlt | hle
          · exact (ih hsound).of_lt hlt
          · exact (ihk hsound (by rwa [hstream])).of_le hle

end Words

end PushFitness.Twister
