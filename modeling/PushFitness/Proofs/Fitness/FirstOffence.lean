import PushFitness.Proofs.Fitness.CaseFaults

/-!
# The first item that is no case

The items of a list of cases are read one by one, and each case is reported as soon as it has
been read. What can be wrong with an item is said without the reader (`Offence`): it is too
short, or one of its literals is none, and the expected output is at fault only if the input is
not.

Where the reading stands is known from `ofItems_upTo`. As many items have been read as there are
cases, so these are reported, none of them is at fault, and the one behind them is, if there is
an error. Hence no other item can be the first at fault (`UpTo.firstOffence`).
-/

namespace PushFitness

/-- What is wrong with an item that is no case. -/
inductive Offence (t : ProblemType) : Item → CaseFault → Prop
  | form {item : Item} (h : ∀ input expected ignored, item ≠ .list (input :: expected :: ignored)) :
      Offence t item .form
  | input {input expected : Item} {ignored : List Item} (h : ∀ v, ¬ Literal t input v) :
      Offence t (.list (input :: expected :: ignored)) (.literal .input)
  | expected {input expected : Item} {ignored : List Item} {v : Scalar}
      (hinput : Literal t input v) (h : ∀ v, ¬ Literal t expected v) :
      Offence t (.list (input :: expected :: ignored)) (.literal .expected)

/-- The item at an index is no case, and those in front of it are cases. -/
structure FirstOffence (t : ProblemType) (items : List Item) (index : Nat) (item : Item)
    (fault : CaseFault) : Prop where
  found : items[index]? = some item
  offends : Offence t item fault
  first : ∀ (i : Nat) x, i < index → items[i]? = some x → ∀ f, ¬ Offence t x f

/-- A record for information with the index of a case and its two numbers. -/
structure ReportsCase (index : Nat) (c : Case) (r : LogRecord) : Prop where
  level : r.level = .info
  logger : r.logger = "push_surrogate.parsing"
  message : r.message = ";; Fitness case #" ++ toString index ++ " input: " ++ c.input.text ++
    " output: " ++ c.expected.text

/-- There are `count` reports, and each is about the item in its place as the case that it is. -/
def Reported (t : ProblemType) (items : List Item) (count : Nat) (records : List LogRecord) :
    Prop :=
  records.length = count ∧ ∀ (i : Nat) r, records[i]? = some r →
    ∃ item c, items[i]? = some item ∧ CaseOf t item c ∧ ReportsCase i c r

variable {t : ProblemType} {text : String} {items : List Item} {item : Item} {index : Nat}
  {fault : CaseFault} {e : CaseError}

/-! ## Items -/

theorem Offence.not_caseOf (h : Offence t item fault) (c : Case) : ¬ CaseOf t item c := by
  rintro ⟨hinput, hexpected, ignored⟩
  cases h with
  | form h => exact h _ _ _ rfl
  | input h => exact h _ hinput
  | expected _ h => exact h _ hexpected

theorem not_literal_of_error {input : Item} {le : LiteralError} (h : t.literal input = .error le)
    (v : Scalar) : ¬ Literal t input v := by
  intro hv
  rw [literal_eq_ok_iff.mpr hv] at h
  cases h

/-- An item that cannot be read has the fault that is found. -/
theorem offence_of_ofItem (h : Case.ofItem t index item = .error e) : Offence t item e.fault := by
  unfold Case.ofItem at h
  split at h
  · next input expected ignored =>
      cases hinput : t.literal input with
      | error le =>
          rw [hinput] at h
          obtain rfl := Except.error.inj h
          exact .input (not_literal_of_error hinput)
      | ok i =>
          cases hexpected : t.literal expected with
          | error le =>
              rw [hinput, hexpected] at h
              obtain rfl := Except.error.inj h
              exact .expected (literal_eq_ok_iff.mp hinput) (not_literal_of_error hexpected)
          | ok o =>
              rw [hinput, hexpected] at h
              cases h
  · next hform =>
      obtain rfl := Except.error.inj h
      exact .form fun input expected ignored heq => hform input expected ignored heq

/-! ## Lists of items -/

theorem record_reportsCase (index : Nat) (c : Case) :
    ReportsCase index c (CaseReading.record index c) := ⟨rfl, rfl, rfl⟩

namespace UpTo

variable {r : CaseReading}

theorem reported (h : UpTo t index items r) : Reported t items r.cases.length r.records := by
  refine ⟨List.length_mapIdx, fun i record hi => ?_⟩
  rw [CaseReading.records, List.getElem?_mapIdx] at hi
  obtain ⟨c, hc, rfl⟩ := Option.map_eq_some_iff.mp hi
  obtain ⟨item, hitem, hcase⟩ := h.read i c hc
  exact ⟨item, c, hitem, hcase, record_reportsCase i c⟩

theorem not_offence (h : UpTo t index items r) {i : Nat} {x : Item} (hi : i < r.cases.length)
    (hx : items[i]? = some x) (f : CaseFault) : ¬ Offence t x f := by
  intro hf
  obtain ⟨x', hx', hcase⟩ := h.read i r.cases[i] (List.getElem?_eq_getElem hi)
  rw [hx] at hx'
  obtain rfl := Option.some.inj hx'
  exact hf.not_caseOf _ hcase

theorem firstOffence (h : UpTo t index items r) (he : r.error? = some e) :
    ∃ item, FirstOffence t items r.cases.length item e.fault ∧
      Case.ofItem t (index + r.cases.length) item = .error e := by
  obtain ⟨item, hitem, herror⟩ := h.stopped e he
  exact ⟨item, ⟨hitem, offence_of_ofItem herror, fun i x hi hx => h.not_offence hi hx⟩, herror⟩

end UpTo

/-! ## Texts -/

/-- A text that is one list without long integers is a list of items. -/
theorem OneList.topItems (hshort : ShortIntegers (Token.ofText text))
    (h : OneList (Token.ofText text)) : ∃ items, Spells (Token.ofText text) [.list items] ∧
      CaseReading.topItems text = .ok items := by
  obtain ⟨b, inner, hinner, htokens⟩ := id h
  obtain ⟨items, hspells⟩ := (Balanced.list b hinner .nil).spells (htokens ▸ hshort.word_ok)
  obtain ⟨xs, rfl⟩ := hspells.oneList_iff.mp (htokens ▸ h)
  exact ⟨xs, htokens ▸ hspells, topItems_eq_ok_iff.mpr (htokens ▸ hspells)⟩

/-- If the whole text is reported, no case is. -/
theorem records_of_whole (h : readCases t text = .error e)
    (hwhole : e.caseIndex = -1) : (CaseReading.ofText t text).records = [] := by
  rw [readCases, CaseReading.result_eq_error_iff] at h
  rw [CaseReading.ofText] at h ⊢
  cases htop : CaseReading.topItems text with
  | error e' => rfl
  | ok items =>
      rw [htop] at h
      obtain ⟨item, -, hitem⟩ := (ofItems_upTo t 0 items).firstOffence h
      have hindex := (ofItem_eq_error text hitem).1
      omega

theorem ofText_upTo (t : ProblemType) (h : CaseReading.topItems text = .ok items) :
    UpTo t 0 items (CaseReading.ofText t text) := by
  rw [CaseReading.ofText, h]
  exact ofItems_upTo t 0 items

/-- The first item of the list that is no case is reported, and exactly the items in front of it
are in the log. -/
theorem firstOffence_of_topItems (h : CaseReading.topItems text = .ok items)
    (hsome : ∃ item ∈ items, ∃ f, Offence t item f) :
    ∃ index item e, FirstOffence t items index item e.fault ∧ readCases t text = .error e ∧
      e.caseIndex = index ∧ e.raw text = item.text ∧
      Reported t items index (CaseReading.ofText t text).records := by
  obtain ⟨x, hx, f, hf⟩ := hsome
  have hupTo := ofText_upTo t h
  cases herror : (CaseReading.ofText t text).error? with
  | none =>
      obtain ⟨i, hi, rfl⟩ := List.getElem_of_mem hx
      have hall := hupTo.all herror
      exact absurd hf (hupTo.not_offence (hall ▸ hi) (List.getElem?_eq_getElem hi) f)
  | some e =>
      obtain ⟨item, hfirst, hitem⟩ := hupTo.firstOffence herror
      obtain ⟨hindex, hraw, -⟩ := ofItem_eq_error text hitem
      rw [Nat.zero_add] at hindex
      exact ⟨_, item, e, hfirst, CaseReading.result_eq_error_iff.mpr herror, hindex, hraw,
        hupTo.reported⟩

/-- Of a text that is one list without long integers the first item that is no case is
reported, with its index, its text and its fault, and exactly the items in front of it are in
the log, each with its index and the numbers of the case that it is. If all items are cases, all
of them are. A text that is unusable as a whole leaves nothing in the log. -/
theorem first_offence_is_reported (t : ProblemType) (text : String) :
    (ShortIntegers (Token.ofText text) → OneList (Token.ofText text) →
      ∃ items, Spells (Token.ofText text) [.list items] ∧
        ((∃ item ∈ items, ∃ f, Offence t item f) →
          ∃ index item e, FirstOffence t items index item e.fault ∧ readCases t text = .error e ∧
            e.caseIndex = index ∧ e.raw text = item.text ∧
            Reported t items index (CaseReading.ofText t text).records) ∧
        ((∀ item ∈ items, ∀ f, ¬ Offence t item f) →
          (∃ cases, readCases t text = .ok cases) ∧
            Reported t items items.length (CaseReading.ofText t text).records)) ∧
    ∀ e, readCases t text = .error e → e.caseIndex = -1 →
      (CaseReading.ofText t text).records = [] := by
  refine ⟨fun hshort hone => ?_, fun e => records_of_whole⟩
  obtain ⟨items, hspells, htop⟩ := hone.topItems hshort
  have hupTo := ofText_upTo t htop
  refine ⟨items, hspells, firstOffence_of_topItems htop, fun hcases => ?_⟩
  have hnone : (CaseReading.ofText t text).error? = none := by
    refine Option.eq_none_iff_forall_not_mem.mpr fun e herror => ?_
    obtain ⟨item, ⟨hfound, hoffends, -⟩, -⟩ := hupTo.firstOffence herror
    exact hcases item (List.mem_of_getElem? hfound) _ hoffends
  refine ⟨⟨(CaseReading.ofText t text).cases, ?_⟩, hupTo.all hnone ▸ hupTo.reported⟩
  rw [readCases, CaseReading.result, hnone]

/-- Of an expected output that is none and an item that is too short, with a case in front of
each, the first is reported. -/
theorem first_offence_is_reported_second :
    ShortIntegers (Token.ofText "[(1 2 x) [3 y] (4 5) (6)]") ∧
    OneList (Token.ofText "[(1 2 x) [3 y] (4 5) (6)]") ∧
    ∃ items item, FirstOffence .integer items 1 item (.literal .expected) ∧
      item.text = "( 3 y )" ∧
      Reported .integer items 1
        (CaseReading.ofText .integer "[(1 2 x) [3 y] (4 5) (6)]").records ∧
      (CaseReading.ofText .integer "[(1 2 x) [3 y] (4 5) (6)]").records =
        [⟨.info, "push_surrogate.parsing", ";; Fitness case #0 input: 1 output: 2"⟩] := by
  have hshort : ShortIntegers (Token.ofText "[(1 2 x) [3 y] (4 5) (6)]") :=
    shortIntegers_of_length (by decide +kernel)
  have hspells : Spells (Token.ofText "[(1 2 x) [3 y] (4 5) (6)]")
      [.list [.list [.int 1, .int 2, .name "x"], .list [.int 3, .name "y"],
        .list [.int 4, .int 5], .list [.int 6]]] := readItems_eq_ok_iff.mp rfl
  have hone := hspells.oneList_iff.mpr ⟨_, rfl⟩
  have hfault : readCases .integer "[(1 2 x) [3 y] (4 5) (6)]" = .error
      (.badLiteral 1 (.list [.int 3, .name "y"]) .expected (.notNumeric (.name "y"))) := rfl
  obtain ⟨items, hspells', hreported, -⟩ :=
    (first_offence_is_reported .integer "[(1 2 x) [3 y] (4 5) (6)]").1 hshort hone
  obtain rfl := Item.list.inj (List.cons.inj (hspells.unique hspells')).1
  have hoffence : Offence .integer (.list [.int 3, .name "y"]) (.literal .expected) :=
    .expected (.integer 3) fun v hv => by cases hv
  obtain ⟨index, item, e, hfirst, hread, hindex, hraw, hrecords⟩ :=
    hreported ⟨_, by simp, _, hoffence⟩
  obtain rfl := Except.error.inj (hfault.symm.trans hread)
  obtain rfl : 1 = index := Int.ofNat.inj hindex
  exact ⟨hshort, hone, _, item, hfirst, hraw.symm, hrecords, rfl⟩

end PushFitness
