import PushFitness.Program.Atom
import PushFitness.Proofs.Text.Digit

/-!
# Words and atoms

A word is a truth value, an integer, a double or a name (`ofWord_cases`), with one exception:
an integer with more digits than are ever read is no atom (`ofWord_eq_error_iff`). What an
integer looks like is said here by its characters, an optional sign and digits, so that a
condition on a text does not mention the reader.
-/

namespace PushFitness

open Text

/-- A word that is an optional sign and `count` digits, at least one. -/
def IntegerWord (cs : List Char) (count : Nat) : Prop :=
  ∃ sign digits, cs = sign ++ digits ∧ (sign = [] ∨ sign = ['+'] ∨ sign = ['-']) ∧
    (∀ c ∈ digits, isDigit c = true) ∧ digits.length = count ∧ 0 < count

theorem IntegerWord.count_le {cs : List Char} {count : Nat} (h : IntegerWord cs count) :
    count ≤ cs.length := by
  obtain ⟨sign, digits, rfl, -, -, rfl, -⟩ := h
  rw [List.length_append]
  omega

theorem takeSign_of_digit {c : Char} (h : isDigit c = true) (cs : List Char) :
    takeSign (c :: cs) = (false, c :: cs) := by
  have hminus : c ≠ '-' := isDigit_ne h (by decide +kernel)
  have hplus : c ≠ '+' := isDigit_ne h (by decide +kernel)
  unfold takeSign
  split
  · next heq => exact absurd (List.cons.inj heq).1 hminus
  · next heq => exact absurd (List.cons.inj heq).1 hplus
  · rfl

/-- A sign that is taken off was there. -/
theorem takeSign_append (cs : List Char) : ∃ sign, cs = sign ++ (takeSign cs).2 ∧
    (sign = [] ∨ sign = ['+'] ∨ sign = ['-']) := by
  unfold takeSign
  split
  · next cs => exact ⟨['-'], rfl, .inr (.inr rfl)⟩
  · next cs => exact ⟨['+'], rfl, .inr (.inl rfl)⟩
  · next cs _ _ => exact ⟨[], rfl, .inl rfl⟩

/-- A sign and the digits of the absolute value make the integer. -/
theorem signedValue_of_natAbs {n : Int} {ds : List Nat} (h : ofDigits ds = n.natAbs) :
    signedValue (decide (n < 0)) ds = n := by
  rw [signedValue, h]
  by_cases hn : n < 0
  · rw [if_pos (decide_eq_true hn)]
    omega
  · rw [if_neg (by simpa using hn)]
    omega

theorem digitValues?_of_signedDigits? {cs : List Char} {negative : Bool} {ds : List Nat}
    (h : signedDigits? cs = some (negative, ds)) :
    digitValues? (takeSign cs).2 = some ds ∧ 0 < ds.length := by
  rw [signedDigits?] at h
  simp only [] at h
  split at h
  · next d rest hvalues =>
      obtain ⟨-, rfl⟩ := Prod.mk.inj (Option.some.inj h)
      exact ⟨hvalues, Nat.succ_pos _⟩
  · cases h

theorem integerWord_of_signedDigits? {cs : List Char} {negative : Bool} {ds : List Nat}
    (h : signedDigits? cs = some (negative, ds)) : IntegerWord cs ds.length := by
  obtain ⟨sign, hcs, hsign⟩ := takeSign_append cs
  obtain ⟨hvalues, hpos⟩ := digitValues?_of_signedDigits? h
  obtain ⟨hdigits, hlength⟩ := digitValues?_eq_some hvalues
  exact ⟨sign, _, hcs, hsign, hdigits, hlength.symm, hpos⟩

theorem IntegerWord.signedDigits?_eq {cs : List Char} {count : Nat} (h : IntegerWord cs count) :
    ∃ negative ds, signedDigits? cs = some (negative, ds) ∧ ds.length = count := by
  obtain ⟨sign, digits, rfl, hsign, hdigits, rfl, hpos⟩ := h
  obtain ⟨ds, hds⟩ := digitValues?_of_digits hdigits
  have hlength := (digitValues?_eq_some hds).2
  obtain ⟨c, cs, rfl⟩ := List.exists_cons_of_length_pos hpos
  obtain ⟨d, ds, rfl⟩ := List.exists_cons_of_length_pos (hlength ▸ hpos)
  rcases hsign with rfl | rfl | rfl
  · have htake := takeSign_of_digit (hdigits c List.mem_cons_self) cs
    refine ⟨false, d :: ds, ?_, hlength⟩
    rw [List.nil_append, signedDigits?, htake]
    simp only [hds]
  · exact ⟨false, d :: ds, by simp only [signedDigits?, List.singleton_append, takeSign, hds],
      hlength⟩
  · exact ⟨true, d :: ds, by simp only [signedDigits?, List.singleton_append, takeSign, hds],
      hlength⟩

namespace Item

theorem ofWord_cases {cs : List Char} {atom : Item} (h : ofWord cs = .ok atom) :
    (∃ b, atom = .bool b) ∨
    (∃ negative ds, signedDigits? cs = some (negative, ds) ∧ ds.length ≤ maxIntegerDigits ∧
      atom = .int (signedValue negative ds)) ∨
    (∃ negative d, atom = .float (Binary64.ofDecimal negative d)) ∨
    atom = .name (String.ofList cs) := by
  rw [ofWord] at h
  split at h
  · exact .inl ⟨true, (Except.ok.inj h).symm⟩
  · split at h
    · exact .inl ⟨false, (Except.ok.inj h).symm⟩
    · split at h
      · next negative ds hds =>
          split at h
          · next hcount => exact .inr (.inl ⟨negative, ds, hds, hcount, (Except.ok.inj h).symm⟩)
          · cases h
      · split at h
        · next negative d _ => exact .inr (.inr (.inl ⟨negative, d, (Except.ok.inj h).symm⟩))
        · exact .inr (.inr (.inr (Except.ok.inj h).symm))

theorem ofWord_ne_list {cs : List Char} {atom : Item} (h : ofWord cs = .ok atom)
    (items : List Item) : atom ≠ .list items := by
  rintro rfl
  rcases ofWord_cases h with ⟨b, hb⟩ | ⟨negative, ds, -, -, hn⟩ | ⟨negative, d, hx⟩ | hs
  · cases hb
  · cases hn
  · cases hx
  · cases hs

/-- The words for truth values are no numbers. -/
theorem ofWord_of_signedDigits? {cs : List Char} {negative : Bool} {ds : List Nat}
    (h : signedDigits? cs = some (negative, ds)) : ofWord cs =
      if ds.length ≤ maxIntegerDigits then .ok (.int (signedValue negative ds))
      else .error ⟨ds.length⟩ := by
  have htrue : signedDigits? ['t', 'r', 'u', 'e'] = none := by decide +kernel
  have hfalse : signedDigits? ['f', 'a', 'l', 's', 'e'] = none := by decide +kernel
  rw [ofWord, if_neg, if_neg, h]
  · rintro rfl
    rw [hfalse] at h
    cases h
  · rintro rfl
    rw [htrue] at h
    cases h

/-- The one way in which a word is no atom. -/
theorem ofWord_eq_error_iff {cs : List Char} {e : TooManyDigits} :
    ofWord cs = .error e ↔ IntegerWord cs e.count ∧ maxIntegerDigits < e.count := by
  constructor
  · intro h
    rw [ofWord] at h
    split at h
    · cases h
    · split at h
      · cases h
      · split at h
        · next negative ds hds =>
            split at h
            · cases h
            · next hmany =>
                obtain rfl := Except.error.inj h
                exact ⟨integerWord_of_signedDigits? hds, Nat.lt_of_not_le hmany⟩
        · split at h <;> cases h
  · rintro ⟨hword, hmany⟩
    obtain ⟨negative, ds, hds, hlength⟩ := hword.signedDigits?_eq
    rw [ofWord_of_signedDigits? hds, if_neg (by omega), hlength]

end Item

end PushFitness
