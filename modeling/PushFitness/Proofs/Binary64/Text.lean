import PushFitness.Program.Atom
import PushFitness.Binary64.Text
import PushFitness.Proofs.Binary64.Decimal
import PushFitness.Proofs.Program.Tokens
import PushFitness.Proofs.Program.Words

/-!
# Doubles read back from their text

Both notations put a decimal down as digits, a point or an exponent or both, and more digits.
Each is read as a decimal of the same value: as the decimal itself, but for a number without a
fractional part in positional notation, which gets zeros up to the point and one behind it.
Neither is mistaken for an integer, because of the point or the exponent, and neither holds
a blank or a bracket. With `toMagnitude_shortestDecimal` a finite double is its own text
read back (`ofWord_chars`).
-/

namespace PushFitness

open Text

/-! ## The parts of a decimal -/

theorem signedDecimal?_of_parts {cs whole rest tail : List Char} {negative : Bool}
    {fraction : List Nat} {e : Int} (hsign : takeSign cs = (negative, whole ++ rest))
    (hwhole : ∀ c ∈ whole, c.isDigit = true) (hne : whole ≠ [])
    (hrest : digitRun rest = ([], rest)) (hfraction : fractionRun rest = (fraction, tail))
    (he : exponent? tail = some e) : signedDecimal? cs =
      some (negative, ⟨ofDigits (latinValues whole ++ fraction), e - fraction.length⟩) := by
  have hvalues : (latinValues whole).isEmpty = false := by
    rw [List.isEmpty_eq_false_iff]
    exact fun hnil => hne (List.map_eq_nil_iff.mp hnil)
  simp only [signedDecimal?, hsign, digitRun_latin hwhole hrest, hfraction, hvalues, he,
    Bool.false_and, Bool.false_eq_true, if_false, Option.map_some]

theorem digitRun_of_not_digit {c : Char} (h : digitValue? c = none) (cs : List Char) :
    digitRun (c :: cs) = ([], c :: cs) := by
  rw [digitRun, h]

theorem fractionRun_point {fraction tail : List Char} (h : ∀ c ∈ fraction, c.isDigit = true)
    (htail : digitRun tail = ([], tail)) :
    fractionRun ('.' :: (fraction ++ tail)) = (latinValues fraction, tail) :=
  digitRun_latin h htail

theorem isWordChar_latin {c : Char} (h : c.isDigit = true) : Token.isWordChar c = true := by
  rcases Token.char_cases c with ⟨t, ht⟩ | hblank | hword
  · unfold Token.ofBracket? at ht
    split at ht
    case h_5 => cases ht
    all_goals exact absurd h (by decide)
  · simp only [isBlank, Bool.or_eq_true, Bool.and_eq_true, decide_eq_true_eq, beq_iff_eq] at hblank
    simp only [Char.isDigit, Bool.and_eq_true, decide_eq_true_eq] at h
    have hlow : 48 ≤ c.toNat := h.1
    have hhigh : c.toNat ≤ 57 := h.2
    omega
  · exact hword

namespace Decimal

/-! ## The exponent -/

theorem exponentChars_eq (e : Int) : ∃ digits, exponentChars e =
      (if e < 0 then '-' else '+') :: digits ∧ (∀ c ∈ digits, c.isDigit = true) ∧
    digits ≠ [] ∧ ofDigits (latinValues digits) = e.natAbs := by
  refine ⟨_, rfl, ?_⟩
  by_cases hshort : (Nat.toDigits 10 e.natAbs).length < 2
  · rw [if_pos hshort]
    refine ⟨?_, List.cons_ne_nil _ _, ofDigits_toDigits _⟩
    intro c hc
    rcases List.mem_cons.mp hc with rfl | hc
    · rfl
    · exact isDigit_of_mem_toDigits c hc
  · rw [if_neg hshort]
    exact ⟨isDigit_of_mem_toDigits, Nat.toDigits_ne_nil, ofDigits_toDigits _⟩

theorem exponent?_exponentChars (e : Int) : exponent? ('e' :: exponentChars e) = some e := by
  obtain ⟨digits, hchars, hdigits, hne, hvalue⟩ := exponentChars_eq e
  have hsign : takeSign (exponentChars e) = (decide (e < 0), digits) := by
    rw [hchars]
    by_cases he : e < 0
    · rw [if_pos he, decide_eq_true he]
      rfl
    · rw [if_neg he, decide_eq_false he]
      rfl
  obtain ⟨c, cs, rfl⟩ := List.exists_cons_of_ne_nil hne
  have hvalues := digitValues?_latin hdigits
  rw [exponent?, if_pos (.inl rfl), hsign]
  simp only [hvalues]
  exact congrArg some (signedValue_of_natAbs hvalue)

/-- What can stand at the end of a decimal: an exponent, or nothing for the exponent zero. -/
structure Exponent (tail : List Char) (e : Int) : Prop where
  word : ∀ c ∈ tail, Token.isWordChar c = true
  run : digitRun tail = ([], tail)
  value : exponent? tail = some e

theorem exponent_nil : Exponent [] 0 where
  word := fun _ hc => absurd hc List.not_mem_nil
  run := rfl
  value := rfl

theorem exponent_chars (e : Int) : Exponent ('e' :: exponentChars e) e where
  word := by
    obtain ⟨digits, hchars, hdigits, -⟩ := exponentChars_eq e
    intro c hc
    rw [hchars, List.mem_cons, List.mem_cons] at hc
    rcases hc with rfl | rfl | hc
    · rfl
    · split <;> decide
    · exact isWordChar_latin (hdigits c hc)
  run := digitRun_of_not_digit (by decide +kernel) _
  value := exponent?_exponentChars e

/-! ## Texts of decimals -/

/-- A text without a sign that is read as a decimal, whatever sign stands in front of it, and
that is one word and no integer. -/
structure Spelled (body : List Char) (d : Decimal) : Prop where
  starts : ∃ c cs, body = c :: cs ∧ c.isDigit = true
  word : ∀ c ∈ body, Token.isWordChar c = true
  no_integer : digitValues? body = none
  read : ∀ {cs negative}, takeSign cs = (negative, body) →
    signedDecimal? cs = some (negative, d)

theorem Spelled.of_eq {body : List Char} {d d' : Decimal} (h : Spelled body d')
    (hcoefficient : d'.coefficient = d.coefficient) (hexponent : d'.exponent = d.exponent) :
    Spelled body d := by
  cases d
  cases d'
  cases hcoefficient
  cases hexponent
  exact h

/-- Digits and what stands behind them, which begins with the character `c`. -/
theorem spelled_of_parts {whole rest tail fraction : List Char} {c : Char} {e : Int}
    (hwhole : ∀ c ∈ whole, c.isDigit = true) (hne : whole ≠ []) (hc : digitValue? c = none)
    (hrest : ∀ x ∈ c :: rest, Token.isWordChar x = true)
    (hfraction : fractionRun (c :: rest) = (latinValues fraction, tail))
    (he : exponent? tail = some e) : Spelled (whole ++ c :: rest)
      ⟨ofDigits (latinValues (whole ++ fraction)), e - fraction.length⟩ where
  starts := by
    obtain ⟨x, xs, rfl⟩ := List.exists_cons_of_ne_nil hne
    exact ⟨x, xs ++ c :: rest, rfl, hwhole x List.mem_cons_self⟩
  word := by
    intro x hx
    rcases List.mem_append.mp hx with hx | hx
    · exact isWordChar_latin (hwhole x hx)
    · exact hrest x hx
  no_integer := by
    cases hvalues : digitValues? (whole ++ c :: rest) with
    | none => rfl
    | some ds =>
        have hdigit := (digitValues?_eq_some hvalues).1 c (by simp)
        rw [isDigit, hc] at hdigit
        cases hdigit
  read := by
    intro cs negative hsign
    rw [signedDecimal?_of_parts hsign hwhole hne (digitRun_of_not_digit hc rest) hfraction he,
      latinValues_append, length_latinValues]

theorem spelled_point {whole fraction tail : List Char} {e : Int}
    (hwhole : ∀ c ∈ whole, c.isDigit = true) (hne : whole ≠ [])
    (hfraction : ∀ c ∈ fraction, c.isDigit = true) (he : Exponent tail e) :
    Spelled (whole ++ '.' :: (fraction ++ tail))
      ⟨ofDigits (latinValues (whole ++ fraction)), e - fraction.length⟩ := by
  have hrest : ∀ c ∈ '.' :: (fraction ++ tail), Token.isWordChar c = true := by
    intro c hc
    rw [List.mem_cons, List.mem_append] at hc
    rcases hc with rfl | hc | hc
    · rfl
    · exact isWordChar_latin (hfraction c hc)
    · exact he.word c hc
  exact spelled_of_parts hwhole hne (by decide +kernel) hrest
    (fractionRun_point hfraction he.run) he.value

theorem spelled_exponent {whole : List Char} (e : Int) (hwhole : ∀ c ∈ whole, c.isDigit = true)
    (hne : whole ≠ []) :
    Spelled (whole ++ 'e' :: exponentChars e) ⟨ofDigits (latinValues whole), e⟩ := by
  have hrun : fractionRun ('e' :: exponentChars e) = (latinValues [], 'e' :: exponentChars e) := rfl
  have h := spelled_of_parts hwhole hne (by decide +kernel) (exponent_chars e).word hrun
    (exponent_chars e).value
  rwa [List.append_nil, List.length_nil, Int.natCast_zero, Int.sub_zero] at h

/-! ## The two notations -/

theorem isDigit_of_mem_digits {d : Decimal} : ∀ c ∈ d.digits, c.isDigit = true :=
  isDigit_of_mem_toDigits

theorem length_digits_pos (d : Decimal) : 0 < d.digits.length := Nat.length_toDigits_pos

theorem ofDigits_zeros_digits (d : Decimal) (k : Nat) :
    ofDigits (latinValues (List.replicate k '0' ++ d.digits)) = d.coefficient := by
  rw [ofDigits_latinValues, Nat.ofDigitChars_append, Nat.ofDigitChars_replicate_zero, Nat.mul_zero]
  exact Nat.ofDigitChars_ten_toDigits

theorem ofDigits_digits_zeros (d : Decimal) (k : Nat) :
    ofDigits (latinValues (d.digits ++ List.replicate k '0')) = d.coefficient * 10 ^ k := by
  rw [ofDigits_latinValues, Nat.ofDigitChars_append, Nat.ofDigitChars_replicate_zero, digits,
    Nat.ofDigitChars_ten_toDigits, Nat.mul_comm]

theorem isDigit_zeros {k : Nat} : ∀ c ∈ List.replicate k '0', c.isDigit = true := by
  intro c hc
  rw [List.eq_of_mem_replicate hc]
  rfl

theorem spelled_scientific (d : Decimal) : Spelled d.scientific d := by
  have hvalue : ofDigits (latinValues d.digits) = d.coefficient := ofDigits_toDigits _
  have hdigits := isDigit_of_mem_digits (d := d)
  have hfirst : d.firstExponent = d.exponent + (d.digits.length - 1) := rfl
  have hpos := d.length_digits_pos
  rw [scientific]
  generalize d.digits = digits at *
  match digits with
  | [c] =>
      have h := spelled_exponent d.firstExponent hdigits (List.cons_ne_nil c [])
      refine h.of_eq hvalue ?_
      rw [List.length_singleton] at hfirst
      show d.firstExponent = d.exponent
      omega
  | c :: x :: fraction =>
      have hc : ∀ y ∈ [c], y.isDigit = true := by
        intro y hy
        exact hdigits y (List.mem_of_mem_take (i := 1) hy)
      have hfraction : ∀ y ∈ x :: fraction, y.isDigit = true := by
        intro y hy
        exact hdigits y (List.mem_cons_of_mem c hy)
      have h := spelled_point hc (List.cons_ne_nil c []) hfraction (exponent_chars d.firstExponent)
      refine h.of_eq hvalue ?_
      rw [List.length_cons] at hfirst
      show d.firstExponent - ((x :: fraction).length : Int) = d.exponent
      omega

theorem spelled_below_one {d : Decimal} (h : d.firstExponent < 0) : Spelled d.positional d := by
  have hfirst : d.firstExponent = d.exponent + (d.digits.length - 1) := rfl
  have hpos := d.length_digits_pos
  rw [positional, if_pos h]
  have hzero : ∀ c ∈ ['0'], c.isDigit = true := isDigit_zeros (k := 1)
  have hfraction : ∀ c ∈ List.replicate (-d.firstExponent - 1).toNat '0' ++ d.digits,
      c.isDigit = true := by
    intro c hc
    rcases List.mem_append.mp hc with hc | hc
    · exact isDigit_zeros c hc
    · exact isDigit_of_mem_digits c hc
  have hread := spelled_point hzero (List.cons_ne_nil _ _) hfraction exponent_nil
  rw [List.append_nil] at hread
  have hvalue := d.ofDigits_zeros_digits ((-d.firstExponent - 1).toNat + 1)
  refine hread.of_eq hvalue ?_
  show 0 - ((List.replicate (-d.firstExponent - 1).toNat '0' ++ d.digits).length : Int) = d.exponent
  rw [List.length_append, List.length_replicate]
  omega

/-- A number whose last digit stands behind the point. -/
theorem spelled_fraction {d : Decimal} (h : 0 ≤ d.firstExponent) (hexponent : d.exponent < 0) :
    Spelled d.positional d := by
  have hfirst : d.firstExponent = d.exponent + (d.digits.length - 1) := rfl
  have hlength : d.firstExponent.toNat + 1 < d.digits.length := by omega
  have hnone :
      d.firstExponent.toNat + 1 - (d.digits.take (d.firstExponent.toNat + 1)).length = 0 := by
    rw [List.length_take]
    omega
  have htail : (d.digits.drop (d.firstExponent.toNat + 1)).isEmpty = false := by
    rw [List.isEmpty_eq_false_iff, ← List.length_pos_iff, List.length_drop]
    omega
  have hwhole : d.digits.take (d.firstExponent.toNat + 1) ≠ [] := by
    rw [← List.length_pos_iff, List.length_take]
    omega
  have hbefore : ∀ c ∈ d.digits.take (d.firstExponent.toNat + 1), c.isDigit = true := by
    intro c hc
    exact isDigit_of_mem_digits c (List.mem_of_mem_take hc)
  have hbehind : ∀ c ∈ d.digits.drop (d.firstExponent.toNat + 1), c.isDigit = true := by
    intro c hc
    exact isDigit_of_mem_digits c (List.mem_of_mem_drop hc)
  have hread := spelled_point hbefore hwhole hbehind exponent_nil
  have hpositional : d.positional = d.digits.take (d.firstExponent.toNat + 1) ++
      '.' :: (d.digits.drop (d.firstExponent.toNat + 1) ++ []) := by
    simp only [positional, if_neg (Int.not_lt_of_ge h), hnone, htail, List.replicate_zero,
      List.append_nil, List.append_assoc, List.singleton_append, Bool.false_eq_true, if_false]
  rw [hpositional]
  refine hread.of_eq ?_ ?_
  · rw [List.take_append_drop]
    exact ofDigits_toDigits _
  · show 0 - ((d.digits.drop (d.firstExponent.toNat + 1)).length : Int) = d.exponent
    rw [List.length_drop]
    omega

/-- A number without a fractional part gets the zeros up to the point and one behind it. -/
theorem spelled_whole {d : Decimal} (h : 0 ≤ d.firstExponent) (hexponent : 0 ≤ d.exponent) :
    Spelled d.positional ⟨d.coefficient * 10 ^ (d.exponent.toNat + 1), -1⟩ := by
  have hfirst : d.firstExponent = d.exponent + (d.digits.length - 1) := rfl
  have hlength : d.digits.length ≤ d.firstExponent.toNat + 1 := by omega
  have hzeros : d.firstExponent.toNat + 1 - d.digits.length = d.exponent.toNat := by omega
  have hpositional : d.positional = (d.digits ++ List.replicate d.exponent.toNat '0') ++
      '.' :: (List.replicate 1 '0' ++ []) := by
    simp only [positional, if_neg (Int.not_lt_of_ge h), List.take_of_length_le hlength,
      List.drop_of_length_le hlength, hzeros, List.isEmpty_nil, if_true, List.replicate_one,
      List.append_assoc, List.singleton_append, List.append_nil]
  have hwhole : ∀ c ∈ d.digits ++ List.replicate d.exponent.toNat '0', c.isDigit = true := by
    intro c hc
    rcases List.mem_append.mp hc with hc | hc
    · exact isDigit_of_mem_digits c hc
    · exact isDigit_zeros c hc
  have hne : d.digits ++ List.replicate d.exponent.toNat '0' ≠ [] :=
    List.append_ne_nil_of_left_ne_nil Nat.toDigits_ne_nil _
  have hread := spelled_point hwhole hne (isDigit_zeros (k := 1)) exponent_nil
  rw [hpositional]
  refine hread.of_eq ?_ rfl
  show ofDigits (latinValues ((d.digits ++ List.replicate d.exponent.toNat '0') ++
    List.replicate 1 '0')) = d.coefficient * 10 ^ (d.exponent.toNat + 1)
  rw [List.append_assoc, List.replicate_append_replicate, ofDigits_digits_zeros]

/-- Both notations are read as a decimal of the same value. -/
theorem spelled_chars (d : Decimal) :
    ∃ d', Spelled d.chars d' ∧ d'.toMagnitude = d.toMagnitude := by
  rw [chars]
  split
  · rcases Int.lt_or_le d.firstExponent 0 with hbelow | hfirst
    · exact ⟨d, spelled_below_one hbelow, rfl⟩
    · rcases Int.lt_or_le d.exponent 0 with hneg | hnonneg
      · exact ⟨d, spelled_fraction hfirst hneg, rfl⟩
      · refine ⟨_, spelled_whole hfirst hnonneg, ?_⟩
        rw [toMagnitude_mul_ten_pow]
        congr 2
        omega
  · exact ⟨d, spelled_scientific d, rfl⟩

end Decimal

/-! ## Doubles -/

theorem Magnitude.spelled_chars {m : Magnitude} (h : m.isInfinite = false) :
    ∃ d, Decimal.Spelled m.chars d ∧ d.toMagnitude = m := by
  rw [chars, if_neg (by simp [h])]
  by_cases hzero : m.isZero = true
  · rw [if_pos hzero]
    have hread := Decimal.spelled_point (Decimal.isDigit_zeros (k := 1)) (List.cons_ne_nil _ _)
      (Decimal.isDigit_zeros (k := 1)) Decimal.exponent_nil
    have hm : m = .zero := of_decide_eq_true hzero
    exact ⟨_, hread, hm ▸ rfl⟩
  · rw [if_neg hzero]
    obtain ⟨d, hread, hvalue⟩ := Decimal.spelled_chars m.shortestDecimal
    exact ⟨d, hread, hvalue.trans m.toMagnitude_shortestDecimal⟩

theorem Item.ofWord_of_spelled {cs body : List Char} {d : Decimal} {negative : Bool}
    (h : Decimal.Spelled body d) (hsign : takeSign cs = (negative, body)) :
    ofWord cs = .ok (.float (Binary64.ofDecimal negative d)) := by
  obtain ⟨c, rest, hbody, hc⟩ := h.starts
  have htrue : cs ≠ ['t', 'r', 'u', 'e'] := by
    rintro rfl
    obtain rfl := (List.cons.inj ((Prod.mk.inj hsign).2.trans hbody)).1
    cases hc
  have hfalse : cs ≠ ['f', 'a', 'l', 's', 'e'] := by
    rintro rfl
    obtain rfl := (List.cons.inj ((Prod.mk.inj hsign).2.trans hbody)).1
    cases hc
  have hinteger : signedDigits? cs = none := by
    simp only [signedDigits?, hsign, h.no_integer]
  rw [ofWord, if_neg htrue, if_neg hfalse]
  simp only [hinteger, h.read hsign]

theorem Binary64.ofWord_chars {x : Binary64} (h : x.isFinite = true) :
    Item.ofWord x.chars = .ok (.float x) ∧ Token.IsWord x.chars := by
  cases x with
  | nan => cases h
  | signed negative m =>
      have hm : m.isInfinite = false := by simpa [isFinite] using h
      obtain ⟨d, hspelled, hvalue⟩ := Magnitude.spelled_chars hm
      obtain ⟨c, rest, hchars, hc⟩ := hspelled.starts
      have hfloat : Binary64.ofDecimal negative d = .signed negative m := by
        rw [Binary64.ofDecimal, hvalue]
      cases negative with
      | true =>
          have hsign : takeSign ('-' :: m.chars) = (true, m.chars) := rfl
          have hread := Item.ofWord_of_spelled hspelled hsign
          rw [hfloat] at hread
          refine ⟨hread, List.cons_ne_nil _ _, fun y hy => ?_⟩
          rcases List.mem_cons.mp hy with rfl | hy
          · rfl
          · exact hspelled.word y hy
      | false =>
          have hsign : takeSign m.chars = (false, m.chars) := by
            rw [hchars]
            exact takeSign_of_digit (isDigit_latin hc) rest
          have hread := Item.ofWord_of_spelled hspelled hsign
          rw [hfloat] at hread
          exact ⟨hread, by rw [chars, hchars]; exact List.cons_ne_nil _ _, hspelled.word⟩

end PushFitness
