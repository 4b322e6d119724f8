import PushFitness.Proofs.Fitness.CaseText
import PushFitness.Proofs.Program.Prefix
import PushFitness.Proofs.Program.RoundTrip

/-!
# Which faults a text of cases has

A text that is no set of cases is reported with the case that is at fault and its text, or with
the whole text. There is one fault without such a report, an integer with more digits than
are ever read. It is met by the reader, so it hides every fault behind it, also in items that
no case has any use for, and is hidden by a bracket in front of it that closes nothing.

All other faults are found after the reader is done. Then the text is one list. How far the
reading of its items comes is shown once, by induction over them (`ofItems_upTo`), and the first
that is no case is the one reported (`ofItems_eq_error`). What is reported can be written down:
an integer that was read is no longer when it is written.
-/

namespace PushFitness

variable {t : ProblemType} {text : String} {e : CaseError}

/-! ## Long integers -/

/-- A word among tokens between two brackets is one of these tokens. -/
theorem bracketed_eq_append_iff {tokens before behind : List Token} {b : Bracket}
    {cs : List Char} : .opening b :: (tokens ++ [.closing b]) = before ++ .word cs :: behind ↔
      ∃ front back, before = .opening b :: front ∧ behind = back ++ [.closing b] ∧
        tokens = front ++ .word cs :: back := by
  constructor
  · intro h
    rcases before with _ | ⟨t, front⟩
    · cases h
    · obtain ⟨rfl, htail⟩ := List.cons.inj h
      rcases List.append_eq_append_iff.mp htail with ⟨more, rfl, hmore⟩ | ⟨back, rfl, hback⟩
      · rcases more with _ | ⟨t, more⟩
        · cases hmore
        · have hlength := congrArg List.length hmore
          simp at hlength
      · rcases back with _ | ⟨t, back⟩
        · cases hback
        · obtain ⟨rfl, rfl⟩ := List.cons.inj hback
          exact ⟨front, back, rfl, rfl, rfl⟩
  · rintro ⟨front, back, rfl, rfl, rfl⟩
    simp

theorem topItems_eq_tooManyDigits_iff {d : TooManyDigits} :
    CaseReading.topItems text = .error (.tooManyDigits d) ↔ ∃ before cs behind,
      Token.ofText text = before ++ .word cs :: behind ∧ IntegerWord cs d.count ∧
      Text.maxIntegerDigits < d.count ∧ Completable (.opening .round :: before) := by
  have hread : CaseReading.topItems text = .error (.tooManyDigits d) ↔
      Program.ofText (bracketed text) = .error (.tooManyDigits d) := by
    rw [CaseReading.topItems]
    split
    · next h => rw [h]; simp
    · next e hmany h =>
        rw [h]
        refine iff_of_false (by simp) fun h' => ?_
        exact hmany d (Except.error.inj h')
    · next h => rw [h]; simp
    · next h => rw [h]; simp
  rw [hread, Program.ofText_eq_error_iff, readItems_eq_tooManyDigits_iff, ofText_bracketed]
  simp only [bracketed_eq_append_iff]
  constructor
  · rintro ⟨_, cs, _, ⟨front, back, rfl, rfl, htokens⟩, hword, hmany, hfront⟩
    exact ⟨front, cs, back, htokens, hword, hmany, hfront⟩
  · rintro ⟨front, cs, back, htokens, hword, hmany, hfront⟩
    exact ⟨_, cs, _, ⟨front, back, rfl, rfl, htokens⟩, hword, hmany, hfront⟩

/-! ## Faulty cases -/

/-- A case that cannot be read is reported with its index and its text. -/
theorem ofItem_eq_error (text : String) {index : Nat} {item : Item}
    (h : Case.ofItem t index item = .error e) :
    e.caseIndex = index ∧ e.raw text = item.text ∧ e.fault ≠ .digits ∧ ∀ c, ¬ CaseOf t item c := by
  have hnone : ∀ c, ¬ CaseOf t item c := by
    intro c hc
    rw [ofItem_eq_ok_iff.mpr hc] at h
    cases h
  unfold Case.ofItem at h
  split at h
  · next input expected _ =>
      split at h
      · obtain rfl := Except.error.inj h
        exact ⟨rfl, rfl, nofun, hnone⟩
      · split at h
        · obtain rfl := Except.error.inj h
          exact ⟨rfl, rfl, nofun, hnone⟩
        · cases h
  · obtain rfl := Except.error.inj h
    exact ⟨rfl, rfl, nofun, hnone⟩

/-! ## Lists of items -/

variable {item : Item} {items : List Item} {index : Nat}

/-- How far a reading of items has come: each case is the item in its place, and if that is not
all of them, the item behind them is at fault. -/
structure UpTo (t : ProblemType) (index : Nat) (items : List Item) (r : CaseReading) : Prop where
  read : ∀ (i : Nat) c, r.cases[i]? = some c → ∃ item, items[i]? = some item ∧ CaseOf t item c
  all : r.error? = none → r.cases.length = items.length
  stopped : ∀ e, r.error? = some e → ∃ item, items[r.cases.length]? = some item ∧
    Case.ofItem t (index + r.cases.length) item = .error e

theorem UpTo.cons {c : Case} {r : CaseReading} (h : UpTo t (index + 1) items r)
    (hc : CaseOf t item c) : UpTo t index (item :: items) ⟨c :: r.cases, r.error?⟩ where
  read i c' hi := by
    cases i with
    | zero =>
        obtain rfl := Option.some.inj hi
        exact ⟨item, rfl, hc⟩
    | succ i => exact h.read i c' hi
  all hnone := congrArg (· + 1) (h.all hnone)
  stopped e he := by
    obtain ⟨x, hx, herror⟩ := h.stopped e he
    refine ⟨x, hx, ?_⟩
    rw [Nat.add_right_comm, Nat.add_assoc] at herror
    exact herror

theorem ofItems_upTo (t : ProblemType) (index : Nat) (items : List Item) :
    UpTo t index items (CaseReading.ofItems t index items) := by
  induction items generalizing index with
  | nil => exact ⟨by simp [CaseReading.ofItems], fun _ => rfl, by simp [CaseReading.ofItems]⟩
  | cons item items ih =>
      rw [CaseReading.ofItems]
      cases hitem : Case.ofItem t index item with
      | ok c => exact (ih (index + 1)).cons (ofItem_eq_ok_iff.mp hitem)
      | error e =>
          refine ⟨by simp, by simp, fun e' he' => ?_⟩
          obtain rfl := Option.some.inj he'
          exact ⟨item, rfl, hitem⟩

theorem CaseReading.result_eq_error_iff {r : CaseReading} :
    r.result = .error e ↔ r.error? = some e := by
  rw [result]
  cases r.error? <;> simp

/-- Reading stops at the first item that is no case. -/
theorem ofItems_eq_error (h : (CaseReading.ofItems t index items).result = .error e) :
    ∃ before item behind, items = before ++ item :: behind ∧
      (∀ x ∈ before, ∃ c, CaseOf t x c) ∧
      Case.ofItem t (index + before.length) item = .error e := by
  have hupTo := ofItems_upTo t index items
  obtain ⟨item, hitem, herror⟩ := hupTo.stopped e (CaseReading.result_eq_error_iff.mp h)
  obtain ⟨hlt, rfl⟩ := List.getElem?_eq_some_iff.mp hitem
  refine ⟨items.take (CaseReading.ofItems t index items).cases.length, _, _,
    (List.take_append_drop _ items).symm.trans (by rw [List.drop_eq_getElem_cons hlt]),
    fun x hx => ?_, ?_⟩
  · obtain ⟨i, hi, rfl⟩ := List.getElem_of_mem hx
    rw [List.length_take] at hi
    obtain ⟨x, hx, hcase⟩ := hupTo.read i _ (List.getElem?_eq_getElem (by omega))
    rw [List.getElem_take]
    obtain ⟨hi', rfl⟩ := List.getElem?_eq_some_iff.mp hx
    exact ⟨_, hcase⟩
  · rw [List.length_take, Nat.min_eq_left (Nat.le_of_lt hlt)]
    exact herror

/-- An integer that was read is not too long to be written. -/
theorem Item.Legible.length_digits_le {n : Int} (h : (Item.int n).Legible) :
    (Nat.toDigits 10 n.natAbs).length ≤ Text.maxIntegerDigits := by
  obtain ⟨cs, -, hatom⟩ := h
  rcases ofWord_cases hatom with ⟨b, hb⟩ | ⟨negative, ds, hds, hcount, hn⟩ | ⟨negative, d, hd⟩ | hs
  · cases hb
  · obtain rfl := Item.int.inj hn
    obtain ⟨hvalues, hpos⟩ := digitValues?_of_signedDigits? hds
    exact Nat.le_trans (length_toDigits_le negative (Text.digitValues?_lt hvalues) hpos) hcount
  · cases hd
  · cases hs

/-! ## Texts -/

theorem topItems_eq_error (h : CaseReading.topItems text = .error e) :
    (∃ d, e = .tooManyDigits d) ∨
      e.fault = .form ∧ e.caseIndex = -1 ∧ e.raw text = text := by
  rw [CaseReading.topItems] at h
  split at h
  · next d _ =>
      obtain rfl := Except.error.inj h
      exact .inl ⟨d, rfl⟩
  · obtain rfl := Except.error.inj h
    exact .inr ⟨rfl, rfl, rfl⟩
  · cases h
  · obtain rfl := Except.error.inj h
    exact .inr ⟨rfl, rfl, rfl⟩

/-- The text as a whole is at fault, or it is one list and an item of it is. -/
theorem readCases_eq_error (h : readCases t text = .error e) :
    CaseReading.topItems text = .error e ∨ ∃ before item behind,
      CaseReading.topItems text = .ok (before ++ item :: behind) ∧
      (∀ x ∈ before, ∃ c, CaseOf t x c) ∧ Case.ofItem t before.length item = .error e := by
  rw [readCases, CaseReading.ofText] at h
  cases htop : CaseReading.topItems text with
  | error e' =>
      rw [htop] at h
      exact .inl (congrArg Except.error (Except.error.inj h))
  | ok items =>
      rw [htop] at h
      obtain ⟨before, item, behind, rfl, hbefore, hitem⟩ := ofItems_eq_error h
      rw [Nat.zero_add] at hitem
      exact .inr ⟨before, item, behind, rfl, hbefore, hitem⟩

theorem readCases_of_topItems (h : CaseReading.topItems text = .error e) :
    readCases t text = .error e := by
  rw [readCases, CaseReading.ofText, h]
  rfl

theorem exists_digits_iff : (∃ e, readCases t text = .error e ∧ e.fault = .digits) ↔
    ∃ before cs count behind, Token.ofText text = before ++ .word cs :: behind ∧
      IntegerWord cs count ∧ Text.maxIntegerDigits < count ∧
      Completable (.opening .round :: before) := by
  constructor
  · rintro ⟨e, he, hfault⟩
    rcases readCases_eq_error he with htop | ⟨before, item, behind, -, -, hitem⟩
    · rcases topItems_eq_error htop with ⟨d, rfl⟩ | ⟨hform, -⟩
      · obtain ⟨before, cs, behind, htext, hword, hmany, hbefore⟩ :=
          topItems_eq_tooManyDigits_iff.mp htop
        exact ⟨before, cs, d.count, behind, htext, hword, hmany, hbefore⟩
      · rw [hform] at hfault
        cases hfault
    · exact absurd hfault (ofItem_eq_error text hitem).2.2.1
  · rintro ⟨before, cs, count, behind, htext, hword, hmany, hbefore⟩
    have htop : CaseReading.topItems text = .error (.tooManyDigits ⟨count⟩) :=
      topItems_eq_tooManyDigits_iff.mpr ⟨before, cs, behind, htext, hword, hmany, hbefore⟩
    exact ⟨_, readCases_of_topItems htop, rfl⟩

/-- A text is reported without a place if and only if the reader gets to an integer that is too
long, and it gets there if the tokens in front can still become items behind one extra
bracket. Otherwise it is reported as a whole if it is not one list, and if it is, the first of
its items that is no case is reported with its index and text. The integers in the items
are short enough to be written in that report. -/
theorem case_texts_fail_in_place (t : ProblemType) (text : String) :
    ((∃ e, readCases t text = .error e ∧ e.fault = .digits) ↔
      ∃ before cs count behind, Token.ofText text = before ++ .word cs :: behind ∧
        IntegerWord cs count ∧ Text.maxIntegerDigits < count ∧
        Completable (.opening .round :: before)) ∧
    (∀ e, readCases t text = .error e → e.fault ≠ .digits →
      (∀ items, ¬ Spells (Token.ofText text) [.list items]) ∧
        e.fault = .form ∧ e.caseIndex = -1 ∧ e.raw text = text ∨
      ∃ before item behind, Spells (Token.ofText text) [.list (before ++ item :: behind)] ∧
        (∀ x ∈ before, ∃ c, CaseOf t x c) ∧ (∀ c, ¬ CaseOf t item c) ∧
        e.caseIndex = before.length ∧ e.raw text = item.text) ∧
    ∀ items, Spells (Token.ofText text) [.list items] → ∀ n, Item.int n ∈ Item.leavesOf items →
      (Nat.toDigits 10 n.natAbs).length ≤ Text.maxIntegerDigits := by
  refine ⟨exists_digits_iff, fun e he hfault => ?_, fun items hspells n hn => ?_⟩
  · rcases readCases_eq_error he with htop | ⟨before, item, behind, htop, hbefore, hitem⟩
    · left
      refine ⟨fun items hspells => ?_, ?_⟩
      · rw [topItems_eq_ok_iff.mpr hspells] at htop
        cases htop
      · rcases topItems_eq_error htop with ⟨d, rfl⟩ | hwhole
        · exact absurd rfl hfault
        · exact hwhole
    · obtain ⟨hindex, hraw, -, hnone⟩ := ofItem_eq_error text hitem
      exact .inr ⟨before, item, behind, topItems_eq_ok_iff.mp htop, hbefore, hnone, hindex, hraw⟩
  · have hlegible := hspells.legible fun cs hcs => Token.isWord_of_mem_ofChars hcs
    rw [Item.leavesOf_singleton] at hlegible
    exact (hlegible _ hn).length_digits_le

theorem case_texts_fail_in_place_short :
    readCases .integer "[(1 2) (3)]" = .error (.tooFewItems 1 (.list [.int 3])) ∧
    ∃ before item behind,
      Spells (Token.ofText "[(1 2) (3)]") [.list (before ++ item :: behind)] ∧
      before.length = 1 ∧ item.text = "( 3 )" ∧ ∀ c, ¬ CaseOf .integer item c := by
  have hread : readCases .integer "[(1 2) (3)]" = .error (.tooFewItems 1 (.list [.int 3])) := rfl
  refine ⟨hread, ?_⟩
  rcases (case_texts_fail_in_place .integer "[(1 2) (3)]").2.1 _ hread nofun with
    ⟨-, -, hwhole, -⟩ | ⟨before, item, behind, hspells, -, hnone, hindex, hraw⟩
  · cases hwhole
  · exact ⟨before, item, behind, hspells, (Int.ofNat.inj hindex).symm, hraw.symm, hnone⟩

/-- A case with an item behind its literals, which is an integer of so many digits. -/
def caseWithIgnored (count : Nat) : String :=
  String.ofList ('[' :: '[' :: (['1'] ++ ' ' :: (['2'] ++ ' ' ::
    (List.replicate count '1' ++ [' ', ']', ']']))))

theorem tokens_caseWithIgnored {count : Nat} (h : 0 < count) :
    Token.ofText (caseWithIgnored count) =
      [.opening .square, .opening .square, .word ['1'], .word ['2']] ++
        .word (List.replicate count '1') :: [.closing .square, .closing .square] := by
  have hword : Token.IsWord (List.replicate count '1') := by
    refine ⟨List.ne_nil_of_length_pos (by rwa [List.length_replicate]), fun c hc => ?_⟩
    rw [List.eq_of_mem_replicate hc]
    decide
  rw [Token.ofText, caseWithIgnored, String.toList_ofList, Token.ofChars_bracket rfl,
    Token.ofChars_bracket rfl, Token.ofChars_append_blank rfl, Token.ofChars_append_blank rfl,
    Token.ofChars_append_blank rfl, Token.ofChars_word hword]
  rfl

theorem integerWord_ones {count : Nat} (h : 0 < count) :
    IntegerWord (List.replicate count '1') count := by
  refine ⟨[], List.replicate count '1', rfl, .inl rfl, fun c hc => ?_, List.length_replicate, h⟩
  rw [List.eq_of_mem_replicate hc]
  decide +kernel

/-- A case is not read although only an item is at fault that has no meaning for it. -/
theorem ignored_digits_fail :
    ∃ e, readCases .integer (caseWithIgnored 4301) = .error e ∧ e.fault = .digits := by
  have hbefore : Completable [.opening .round, .opening .square, .opening .square,
      .word ['1'], .word ['2']] :=
    ⟨[.closing .square, .closing .square, .closing .round], _, readItems_eq_ok_iff.mp rfl⟩
  exact exists_digits_iff.mpr ⟨_, _, 4301, _, tokens_caseWithIgnored (by decide),
    integerWord_ones (by decide), by decide, hbefore⟩

end PushFitness
