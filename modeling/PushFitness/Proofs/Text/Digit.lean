import Mathlib.Algebra.Group.Nat.Defs
import PushFitness.Text.Numeral

/-!
# Digits and their values

A text has digit values if and only if it consists of digits, of whatever script. What is
written consists of Latin digits; their values are read back one by one, up to the first
character that is no digit (`digitRun_latin`), and make the number that was written
(`ofDigits_toDigits`). An integer is short if it is below a power of ten (`isShort_iff`).
-/

namespace PushFitness.Text

theorem digitValues?_nil : digitValues? [] = some [] := rfl

theorem digitValues?_cons (c : Char) (cs : List Char) :
    digitValues? (c :: cs) =
      (digitValue? c).bind fun d => (digitValues? cs).map (d :: ·) := by
  simp only [digitValues?, List.mapM_cons]
  cases digitValue? c with
  | none => rfl
  | some d => cases List.mapM digitValue? cs <;> rfl

/-- A text has digit values if it consists of digits, and then as many. -/
theorem digitValues?_eq_some {cs : List Char} {ds : List Nat} (h : digitValues? cs = some ds) :
    (∀ c ∈ cs, isDigit c = true) ∧ ds.length = cs.length := by
  induction cs generalizing ds with
  | nil =>
      rw [digitValues?_nil] at h
      obtain rfl := Option.some.inj h
      exact ⟨fun c hc => absurd hc List.not_mem_nil, rfl⟩
  | cons c cs ih =>
      rw [digitValues?_cons] at h
      obtain ⟨d, hd, h⟩ := Option.bind_eq_some_iff.mp h
      obtain ⟨rest, hrest, rfl⟩ := Option.map_eq_some_iff.mp h
      obtain ⟨hdigits, hlength⟩ := ih hrest
      refine ⟨fun x hx => ?_, by rw [List.length_cons, List.length_cons, hlength]⟩
      rcases List.mem_cons.mp hx with rfl | hx
      · rw [isDigit, hd, Option.isSome_some]
      · exact hdigits x hx

theorem digitValues?_of_digits {cs : List Char} (h : ∀ c ∈ cs, isDigit c = true) :
    ∃ ds, digitValues? cs = some ds := by
  induction cs with
  | nil => exact ⟨[], digitValues?_nil⟩
  | cons c cs ih =>
      obtain ⟨d, hd⟩ := Option.isSome_iff_exists.mp (h c List.mem_cons_self)
      obtain ⟨ds, hds⟩ := ih fun x hx => h x (List.mem_cons_of_mem c hx)
      exact ⟨d :: ds, by rw [digitValues?_cons, hd, hds]; rfl⟩

theorem isDigit_ne {c d : Char} (h : isDigit c = true) (hd : isDigit d = false) : c ≠ d := by
  rintro rfl
  rw [hd] at h
  cases h

/-! ## Values below ten -/

theorem digitValue?_lt {c : Char} {d : Nat} (h : digitValue? c = some d) : d < 10 := by
  obtain ⟨z, hzero, rfl⟩ := Option.map_eq_some_iff.mp h
  have hrun := List.find?_some hzero
  simp only [Bool.and_eq_true, decide_eq_true_eq] at hrun
  omega

theorem digitValues?_lt {cs : List Char} {ds : List Nat} (h : digitValues? cs = some ds) :
    ∀ d ∈ ds, d < 10 := by
  induction cs generalizing ds with
  | nil =>
      obtain rfl := Option.some.inj (digitValues?_nil.symm.trans h)
      exact fun d hd => absurd hd List.not_mem_nil
  | cons c cs ih =>
      rw [digitValues?_cons] at h
      obtain ⟨d, hd, h⟩ := Option.bind_eq_some_iff.mp h
      obtain ⟨rest, hrest, rfl⟩ := Option.map_eq_some_iff.mp h
      intro x hx
      rcases List.mem_cons.mp hx with rfl | hx
      · exact digitValue?_lt hd
      · exact ih hrest x hx

theorem foldl_digits_lt {ds : List Nat} (h : ∀ d ∈ ds, d < 10) (n : Nat) :
    ds.foldl (fun n d => 10 * n + d) n < (n + 1) * 10 ^ ds.length := by
  induction ds generalizing n with
  | nil => simp
  | cons d ds ih =>
      have hd := h d List.mem_cons_self
      have hds := ih (fun x hx => h x (List.mem_cons_of_mem d hx)) (10 * n + d)
      calc (d :: ds).foldl (fun n d => 10 * n + d) n
          < (10 * n + d + 1) * 10 ^ ds.length := hds
        _ ≤ ((n + 1) * 10) * 10 ^ ds.length := Nat.mul_le_mul_right _ (by omega)
        _ = (n + 1) * 10 ^ (d :: ds).length := by
            rw [Nat.mul_assoc, List.length_cons, Nat.pow_succ']

theorem ofDigits_lt {ds : List Nat} (h : ∀ d ∈ ds, d < 10) : ofDigits ds < 10 ^ ds.length := by
  have hlt := foldl_digits_lt h 0
  rw [Nat.zero_add, Nat.one_mul] at hlt
  exact hlt

/-! ## Latin digits -/

/-- The values of Latin digits. -/
def latinValues (cs : List Char) : List Nat := cs.map fun c => c.toNat - '0'.toNat

theorem digitValue?_latin {c : Char} (h : c.isDigit = true) :
    digitValue? c = some (c.toNat - '0'.toNat) := by
  have hrun : (decide ('0'.toNat ≤ c.toNat) && decide (c.toNat < '0'.toNat + 10)) = true := by
    simp only [Char.isDigit, Bool.and_eq_true, decide_eq_true_eq] at h ⊢
    exact ⟨h.1, Nat.lt_succ_of_le h.2⟩
  have hfirst : digitZeros.find? (fun z => z ≤ c.toNat && c.toNat < z + 10) = some '0'.toNat := by
    unfold digitZeros
    exact List.find?_cons_of_pos hrun
  rw [digitValue?, hfirst, Option.map_some]

theorem isDigit_latin {c : Char} (h : c.isDigit = true) : isDigit c = true := by
  rw [isDigit, digitValue?_latin h, Option.isSome_some]

theorem digitValues?_latin {cs : List Char} (h : ∀ c ∈ cs, c.isDigit = true) :
    digitValues? cs = some (latinValues cs) := by
  induction cs with
  | nil => rfl
  | cons c cs ih =>
      rw [digitValues?_cons, digitValue?_latin (h c List.mem_cons_self),
        ih fun x hx => h x (List.mem_cons_of_mem c hx)]
      rfl

/-- A run of digits ends where the text behind it does not start with one. -/
theorem digitRun_latin {cs rest : List Char} (h : ∀ c ∈ cs, c.isDigit = true)
    (hrest : digitRun rest = ([], rest)) : digitRun (cs ++ rest) = (latinValues cs, rest) := by
  induction cs with
  | nil => exact hrest
  | cons c cs ih =>
      rw [List.cons_append, digitRun, digitValue?_latin (h c List.mem_cons_self),
        ih fun x hx => h x (List.mem_cons_of_mem c hx)]
      rfl

theorem latinValues_append (cs cs' : List Char) :
    latinValues (cs ++ cs') = latinValues cs ++ latinValues cs' := List.map_append

theorem length_latinValues (cs : List Char) : (latinValues cs).length = cs.length :=
  List.length_map _

theorem ofDigits_latinValues (cs : List Char) :
    ofDigits (latinValues cs) = Nat.ofDigitChars 10 cs 0 := by
  rw [ofDigits, latinValues, List.foldl_map, Nat.ofDigitChars_eq_foldl]

theorem isDigit_of_mem_toDigits {n : Nat} : ∀ c ∈ Nat.toDigits 10 n, c.isDigit = true :=
  fun _ hc => Nat.isDigit_of_mem_toDigits (by decide) (by decide) hc

theorem ofDigits_toDigits (n : Nat) : ofDigits (latinValues (Nat.toDigits 10 n)) = n := by
  rw [ofDigits_latinValues, Nat.ofDigitChars_ten_toDigits]

/-! ## Short integers -/

theorem isShort_iff {n : Int} : IsShort n ↔ n.natAbs < 10 ^ maxIntegerDigits :=
  Nat.length_toDigits_le_iff (by decide) (by decide)

/-- What is nearer to zero than a short integer is short as well. -/
theorem IsShort.of_natAbs_le {m n : Int} (h : IsShort n) (hle : m.natAbs ≤ n.natAbs) : IsShort m :=
  isShort_iff.mpr (Nat.lt_of_le_of_lt hle (isShort_iff.mp h))

theorem IsShort.natAbs_lt {m n : Int} (h : IsShort m) (hlong : ¬ IsShort n) :
    m.natAbs < n.natAbs :=
  Nat.lt_of_not_le fun hle => hlong (h.of_natAbs_le hle)

end PushFitness.Text

namespace PushFitness

def powerOfTen (zeros : Nat) : Int := Nat.pow 10 zeros

theorem isShort_powerOfTen_iff {zeros : Nat} :
    Text.IsShort (powerOfTen zeros) ↔ zeros < Text.maxIntegerDigits := by
  have hsize : (powerOfTen zeros).natAbs = 10 ^ zeros := Int.natAbs_natCast _
  rw [Text.isShort_iff, hsize, Nat.pow_lt_pow_iff_right (by decide)]

/-- The least number with too many digits. -/
def leastLong : Int := powerOfTen Text.maxIntegerDigits

theorem leastLong_not_isShort : ¬ Text.IsShort leastLong := fun h =>
  Nat.lt_irrefl _ (isShort_powerOfTen_iff.mp h)

end PushFitness
