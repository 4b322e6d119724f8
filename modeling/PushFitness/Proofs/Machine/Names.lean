import PushFitness.Machine.Instruction
import PushFitness.Proofs.Text.Digit

/-!
# When a name cannot be looked up

Looking up a name fails in one case only: the name is `input.in` with more digits
behind it than are ever read as a number (`ofName?_eq_error_iff`). No name of the
table is that long, so it makes no difference that the table is looked at first.
-/

namespace PushFitness

namespace Instruction

/-- A name that is `input.in` with `count` digits behind it, which are too many to be
read. -/
def Overlong (name : String) (count : Nat) : Prop :=
  ∃ digits : List Char, name.toList = ['i', 'n', 'p', 'u', 't', '.', 'i', 'n'] ++ digits ∧
    (∀ c ∈ digits, Text.isDigit c = true) ∧ digits.length = count ∧
    Text.maxIntegerDigits < count

theorem inputDigits?_eq_some {cs : List Char} {ds : List Nat} (h : inputDigits? cs = some ds) :
    ∃ digits, cs = ['i', 'n', 'p', 'u', 't', '.', 'i', 'n'] ++ digits ∧
      Text.digitValues? digits = some ds := by
  unfold inputDigits? at h
  split at h
  · next d digits => exact ⟨d :: digits, rfl, h⟩
  · cases h

theorem table_name_length : ∀ entry ∈ table, entry.1.toList.length ≤ 20 := by decide +kernel

theorem Overlong.lt_length {name : String} {count : Nat} (h : Overlong name count) :
    Text.maxIntegerDigits < name.toList.length := by
  obtain ⟨digits, hname, -, rfl, hcount⟩ := h
  rw [hname, List.length_append]
  omega

theorem Overlong.lookup_eq_none {name : String} {count : Nat} (h : Overlong name count) :
    table.lookup name = none := by
  rw [List.lookup_eq_none_iff]
  intro entry hentry
  simp only [bne_iff_ne, ne_eq]
  rintro rfl
  have hshort := table_name_length entry hentry
  have hlong := h.lt_length
  have hmax : Text.maxIntegerDigits = 4300 := rfl
  omega

theorem Overlong.inputDigits?_eq {name : String} {count : Nat} (h : Overlong name count) :
    ∃ ds, inputDigits? name.toList = some ds ∧ ds.length = count := by
  obtain ⟨digits, hname, hdigits, rfl, hcount⟩ := h
  obtain ⟨ds, hds⟩ := Text.digitValues?_of_digits hdigits
  refine ⟨ds, ?_, (Text.digitValues?_eq_some hds).2⟩
  match digits with
  | [] => exact absurd hcount (by decide)
  | d :: digits => rw [hname]; exact hds

/-- The one way in which a name cannot be looked up. -/
theorem ofName?_eq_error_iff {name : String} {e : TooManyDigits} :
    ofName? name = .error e ↔ Overlong name e.count := by
  constructor
  · intro h
    rw [ofName?] at h
    split at h
    · cases h
    · split at h
      · cases h
      · next ds hds =>
          obtain ⟨digits, hname, hvalues⟩ := inputDigits?_eq_some hds
          obtain ⟨hdigits, hlength⟩ := Text.digitValues?_eq_some hvalues
          split at h
          · cases h
          · next hmany =>
              obtain rfl := Except.error.inj h
              exact ⟨digits, hname, hdigits, hlength.symm, Nat.lt_of_not_le hmany⟩
  · intro h
    obtain ⟨ds, hds, hlength⟩ := h.inputDigits?_eq
    have hnone := h.lookup_eq_none
    obtain ⟨-, -, -, -, hcount⟩ := h
    rw [ofName?, hnone]
    simp only [hds]
    rw [if_neg (by omega), hlength]

/-! ## Names of the table -/

theorem table_lookup : ∀ entry ∈ table, table.lookup entry.1 = some entry.2 := by decide +kernel

theorem ofName?_of_mem {name : String} {i : Instruction} (h : (name, i) ∈ table) :
    ofName? name = .ok (some i) := by
  rw [ofName?, table_lookup (name, i) h]

/-- The instructions that every stack has, looked up by the stack and the rest of the name. -/
theorem ofName?_of_mem_stackTable {on : StackName} {rest : String} {i : Instruction}
    (h : (rest, i) ∈ stackTable on) : ofName? (on.text ++ "." ++ rest) = .ok (some i) := by
  have hon : on ∈ StackName.all := by cases on <;> decide
  refine ofName?_of_mem (List.mem_append_right _ (List.mem_flatMap.mpr ⟨on, hon, ?_⟩))
  exact List.mem_map.mpr ⟨(rest, i), h, rfl⟩

/-- The names of instructions: those of the table, and `input.in` with a number behind it that
has not too many digits. -/
inductive Named : String → Instruction → Prop
  | builtin {name : String} {i : Instruction} (h : (name, i) ∈ table) : Named name i
  | input {name : String} {digits : List Char} {values : List Nat}
      (hname : name.toList = ['i', 'n', 'p', 'u', 't', '.', 'i', 'n'] ++ digits)
      (hdigits : digits ≠ []) (hvalues : Text.digitValues? digits = some values)
      (hcount : digits.length ≤ Text.maxIntegerDigits) :
      Named name (.inputAt (Text.ofDigits values))

theorem table_inputDigits : ∀ entry ∈ table, inputDigits? entry.1.toList = none := by
  decide +kernel

theorem Named.ofName?_eq {name : String} {i : Instruction} (h : Named name i) :
    ofName? name = .ok (some i) := by
  cases h with
  | builtin h => exact ofName?_of_mem h
  | @input digits values hname hdigits hvalues hcount =>
      obtain ⟨d, ds, rfl⟩ := List.exists_cons_of_ne_nil hdigits
      have hread : inputDigits? name.toList = some values := by rw [hname]; exact hvalues
      have hnone : table.lookup name = none := by
        rw [List.lookup_eq_none_iff]
        intro entry hentry
        simp only [bne_iff_ne, ne_eq]
        rintro rfl
        rw [table_inputDigits entry hentry] at hread
        cases hread
      rw [← (Text.digitValues?_eq_some hvalues).2] at hcount
      rw [ofName?, hnone]
      simp only [hread, if_pos hcount]

/-! ## Looking up -/

/-- Whether a name can be looked up is found out by looking it up. -/
instance (name : String) : Decidable (∀ count, ¬ Overlong name count) :=
  match h : ofName? name with
  | .ok _ => isTrue fun count hlong => by
    have herror := (@ofName?_eq_error_iff name ⟨count⟩).mpr hlong
    rw [h] at herror
    cases herror
  | .error e => isFalse fun hshort => hshort e.count (ofName?_eq_error_iff.mp h)

/-- An instruction with a name stands in the table under it, or it fetches an input. -/
theorem ofName?_eq_some {name : String} {i : Instruction} (h : ofName? name = .ok (some i)) :
    (name, i) ∈ table ∨ ∃ n, i = .inputAt n := by
  rw [ofName?] at h
  split at h
  · next j hj =>
      obtain ⟨-, rfl⟩ := h
      obtain ⟨before, behind, heq, -⟩ := List.lookup_eq_some_iff.mp hj
      exact .inl (heq ▸ List.mem_append_right before List.mem_cons_self)
  · split at h
    · cases h
    · split at h
      · obtain ⟨-, rfl⟩ := h
        exact .inr ⟨_, rfl⟩
      · cases h

end Instruction

end PushFitness
