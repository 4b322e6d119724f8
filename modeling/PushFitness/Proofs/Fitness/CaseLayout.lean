import PushFitness.Proofs.Fitness.FirstOffence

/-!
# Cases read back from any layout

A set of cases can be written in many ways. Every list may have either style of brackets, and
blanks may stand wherever they do not split a number. Only between the two numbers of a case
there has to be one. `WrittenCases` is the relation between cases and the texts that they can be
written as; the text of their list as a program is one of them (`writtenCases_text`).

The tokens of such a text are those of the numbers between brackets, whatever the layout, so
they spell the list of the cases (`WrittenCases.spells`), and what is read depends on the
numbers alone. A double is read back as it is. An integer is made a double for a problem of
doubles, and a case with an integer too large for that is an offence like any other.
-/

namespace PushFitness

open Token (Blanks)

/-! ## Layouts -/

/-- The list that a case is written as. -/
def Case.item (c : Case) : Item := .list [c.input.toItem, c.expected.toItem]

def Case.ofIntegers (p : Int × Int) : Case := ⟨.int p.1, .int p.2⟩

def Case.ofDoubles (p : Binary64 × Binary64) : Case := ⟨.float p.1, .float p.2⟩

/-- A text for a case: its two numbers between brackets, with a blank between them. -/
inductive WrittenCase (c : Case) : List Char → Prop
  | mk (b : Bracket) {front gap back : List Char} (hfront : Blanks front) (hgap : Blanks gap)
      (hne : gap ≠ []) (hback : Blanks back) :
      WrittenCase c (b.opener ::
        (front ++ (c.input.toItem.chars ++ (gap ++ (c.expected.toItem.chars ++ back))) ++
          [b.closer]))

/-- A text for cases behind each other. -/
inductive WrittenRow : List Case → List Char → Prop
  | nil {back : List Char} (hback : Blanks back) : WrittenRow [] back
  | cons {c : Case} {cases : List Case} {gap cs more : List Char} (hgap : Blanks gap)
      (hcase : WrittenCase c cs) (hmore : WrittenRow cases more) :
      WrittenRow (c :: cases) (gap ++ (cs ++ more))

/-- A text for a set of cases: a list of them, with blanks around it. -/
def WrittenCases (cases : List Case) (text : String) : Prop :=
  ∃ (b : Bracket) (front inner back : List Char), Blanks front ∧ WrittenRow cases inner ∧
    Blanks back ∧ text.toList = front ++ b.opener :: (inner ++ b.closer :: back)

theorem writtenRow_charsOf (cases : List Case) :
    WrittenRow cases (' ' :: Item.charsOf (cases.map Case.item)) := by
  have hblank : Blanks [' '] := by decide
  induction cases with
  | nil => exact .nil hblank
  | cons c cases ih =>
      have hcase : WrittenCase c c.item.chars := by
        have hmk := WrittenCase.mk (c := c) .round hblank hblank (by decide) hblank
        simpa [Case.item, Item.chars, Item.charsOf, Bracket.opener, Bracket.closer] using hmk
      exact .cons hblank hcase ih

/-- The text of the cases as a program is one of their texts. -/
theorem writtenCases_text (cases : List Case) :
    WrittenCases cases (Program.text (cases.map Case.item)) := by
  have hnone : Blanks [] := by decide
  refine ⟨.round, [], _, [], hnone, writtenRow_charsOf cases, hnone, ?_⟩
  rw [Program.text, Item.text, String.toList_ofList, Item.chars]
  rfl

/-! ## What a layout spells -/

/-- A number that what it is written as is read as. -/
def Scalar.ReadsBack (s : Scalar) : Prop :=
  Item.ofWord s.toItem.chars = .ok s.toItem ∧ Token.IsWord s.toItem.chars

def Case.ReadsBack (c : Case) : Prop := c.input.ReadsBack ∧ c.expected.ReadsBack

theorem readsBack_of_isShort {n : Int} (h : Text.IsShort n) : (Scalar.int n).ReadsBack :=
  ⟨Item.ofWord_integerChars h, Item.integerChars_isWord n⟩

theorem readsBack_of_isFinite {x : Binary64} (h : x.isFinite = true) :
    (Scalar.float x).ReadsBack := by
  rw [Scalar.ReadsBack, Scalar.toItem, Item.chars]
  exact Binary64.ofWord_chars h

theorem WrittenCase.spells {c : Case} {cs more : List Char} {items : List Item}
    (h : WrittenCase c cs) (hc : c.ReadsBack) (hmore : Spells (Token.ofChars more) items) :
    Spells (Token.ofChars (cs ++ more)) (c.item :: items) := by
  obtain ⟨b, hfront, hgap, hne, hback⟩ := h
  obtain ⟨⟨hinput, hinputWord⟩, ⟨hexpected, hexpectedWord⟩⟩ := hc
  rw [List.cons_append, List.append_assoc, List.singleton_append,
    Token.ofChars_bracket (Token.ofBracket?_opener b),
    Token.ofChars_append_bracket (Token.ofBracket?_closer b), Token.ofChars_blanks hfront,
    Token.ofChars_append_gap hgap hne, Token.ofChars_append_blanks hback,
    Token.ofChars_word hinputWord, Token.ofChars_word hexpectedWord]
  exact .list b (.word hinput (.word hexpected .nil)) hmore

theorem WrittenRow.spells {cases : List Case} {cs : List Char} (h : WrittenRow cases cs)
    (hcases : ∀ c ∈ cases, c.ReadsBack) : Spells (Token.ofChars cs) (cases.map Case.item) := by
  induction h with
  | nil hback =>
      rw [Token.ofChars_of_blanks hback]
      exact .nil
  | cons hgap hcase _ ih =>
      rw [Token.ofChars_blanks hgap, List.map_cons]
      exact hcase.spells (hcases _ List.mem_cons_self)
        (ih fun c hc => hcases c (List.mem_cons_of_mem _ hc))

/-- The layout is lost with the tokens. -/
theorem WrittenCases.spells {cases : List Case} {text : String} (h : WrittenCases cases text)
    (hcases : ∀ c ∈ cases, c.ReadsBack) :
    Spells (Token.ofText text) [.list (cases.map Case.item)] := by
  obtain ⟨b, front, inner, back, hfront, hrow, hback, htext⟩ := h
  rw [Token.ofText, htext, Token.ofChars_blanks hfront,
    Token.ofChars_bracket (Token.ofBracket?_opener b),
    Token.ofChars_append_bracket (Token.ofBracket?_closer b), Token.ofChars_of_blanks hback]
  exact (hrow.spells hcases).bracketed b

/-! ## What is read -/

/-- A pair of integers for which there are finite doubles. -/
def Convertible (p : Int × Int) : Prop :=
  (Binary64.ofInt p.1).isFinite = true ∧ (Binary64.ofInt p.2).isFinite = true

instance : DecidablePred Convertible := fun _ => inferInstanceAs (Decidable (_ ∧ _))

def Case.converted (p : Int × Int) : Case := .ofDoubles (Binary64.ofInt p.1, Binary64.ofInt p.2)

theorem literal_float_int_iff {n : Int} :
    (∃ v, Literal .float (.int n) v) ↔ (Binary64.ofInt n).isFinite = true := by
  constructor
  · rintro ⟨v, h⟩
    cases h with
    | converted _ hfinite => exact hfinite
  · exact fun h => ⟨_, .converted n h⟩

theorem caseOf_ofIntegers (p : Int × Int) :
    CaseOf .integer (Case.ofIntegers p).item (.ofIntegers p) := .mk (.integer _) (.integer _) []

theorem caseOf_converted {p : Int × Int} (h : Convertible p) :
    CaseOf .float (Case.ofIntegers p).item (.converted p) :=
  .mk (.converted _ h.1) (.converted _ h.2) []

theorem caseOf_ofDoubles {p : Binary64 × Binary64}
    (h : p.1.isFinite = true ∧ p.2.isFinite = true) :
    CaseOf .float (Case.ofDoubles p).item (.ofDoubles p) := .mk (.float _ h.1) (.float _ h.2) []

/-- What a pair is reported for if a number of it is too large: the input is looked at first. -/
theorem offence_ofIntegers_iff {p : Int × Int} {f : CaseFault} :
    Offence .float (Case.ofIntegers p).item f ↔ ¬ Convertible p ∧
      f = .literal (if (Binary64.ofInt p.1).isFinite then .expected else .input) := by
  constructor
  · intro h
    cases h with
    | form h => exact absurd rfl (h _ _ _)
    | input h =>
        have hlarge := mt literal_float_int_iff.mpr (not_exists.mpr h)
        exact ⟨fun hp => hlarge hp.1, by rw [if_neg hlarge]⟩
    | expected hinput h =>
        have hlarge := mt literal_float_int_iff.mpr (not_exists.mpr h)
        exact ⟨fun hp => hlarge hp.2, by rw [if_pos (literal_float_int_iff.mp ⟨_, hinput⟩)]⟩
  · rintro ⟨hlarge, rfl⟩
    by_cases hinput : (Binary64.ofInt p.1).isFinite = true
    · rw [if_pos hinput]
      have hexpected := mt literal_float_int_iff.mp fun h => hlarge ⟨hinput, h⟩
      exact .expected (.converted _ hinput) (not_exists.mp hexpected)
    · rw [if_neg hinput]
      exact .input (not_exists.mp (mt literal_float_int_iff.mp hinput))

section Pairs

variable {α : Type} {t : ProblemType} {text : String} {pairs : List α} {item : α → Item}

/-- A text is read as cases if it spells a list whose items are these cases. -/
theorem readCases_of_map {case : α → Case}
    (hspells : Spells (Token.ofText text) [.list (pairs.map item)])
    (h : ∀ p ∈ pairs, CaseOf t (item p) (case p)) : readCases t text = .ok (pairs.map case) := by
  refine readCases_eq_ok_iff.mpr ⟨_, hspells, ?_⟩
  rw [List.forall₂_map_left_iff, List.forall₂_map_right_iff, List.forall₂_same]
  exact h

/-- If it spells a list and the item of a pair is at fault, the first such pair is reported. -/
theorem reported_of_map {p : α} {f : CaseFault}
    (hspells : Spells (Token.ofText text) [.list (pairs.map item)]) (hp : p ∈ pairs)
    (hf : Offence t (item p) f) :
    ∃ (index : Nat) (q : α) (e : CaseError), pairs[index]? = some q ∧
      Offence t (item q) e.fault ∧
      (∀ (i : Nat) r, i < index → pairs[i]? = some r → ∀ g, ¬ Offence t (item r) g) ∧
      readCases t text = .error e ∧ e.caseIndex = index := by
  obtain ⟨index, x, e, ⟨hfound, hoffends, hfirst⟩, hread, hindex, -⟩ :=
    firstOffence_of_topItems (topItems_eq_ok_iff.mpr hspells)
      ⟨_, List.mem_map_of_mem hp, f, hf⟩
  rw [List.getElem?_map] at hfound
  obtain ⟨q, hq, rfl⟩ := Option.map_eq_some_iff.mp hfound
  refine ⟨index, q, e, hq, hoffends, fun i r hi hr => hfirst i _ hi ?_, hread, hindex⟩
  rw [List.getElem?_map, hr]
  rfl

end Pairs

theorem spells_ofIntegers {pairs : List (Int × Int)} {text : String}
    (hshort : ∀ p ∈ pairs, Text.IsShort p.1 ∧ Text.IsShort p.2)
    (h : WrittenCases (pairs.map Case.ofIntegers) text) :
    Spells (Token.ofText text) [.list (pairs.map (Case.item ∘ Case.ofIntegers))] := by
  rw [← List.map_map]
  exact h.spells (List.forall_mem_map.mpr fun p hp =>
    ⟨readsBack_of_isShort (hshort p hp).1, readsBack_of_isShort (hshort p hp).2⟩)

theorem spells_ofDoubles {pairs : List (Binary64 × Binary64)} {text : String}
    (hfinite : ∀ p ∈ pairs, p.1.isFinite = true ∧ p.2.isFinite = true)
    (h : WrittenCases (pairs.map Case.ofDoubles) text) :
    Spells (Token.ofText text) [.list (pairs.map (Case.item ∘ Case.ofDoubles))] := by
  rw [← List.map_map]
  exact h.spells (List.forall_mem_map.mpr fun p hp =>
    ⟨readsBack_of_isFinite (hfinite p hp).1, readsBack_of_isFinite (hfinite p hp).2⟩)

/-- Pairs of integers are read back from every layout by a problem of integers. A problem of
doubles reads the doubles that they are made, and if there are none for a pair, the first such
pair is reported with the number of it that is too large. Pairs of finite doubles are read
back by a problem of doubles. -/
theorem written_cases_read_back :
    (∀ (pairs : List (Int × Int)) (text : String),
      (∀ p ∈ pairs, Text.IsShort p.1 ∧ Text.IsShort p.2) →
      WrittenCases (pairs.map Case.ofIntegers) text →
        readCases .integer text = .ok (pairs.map Case.ofIntegers) ∧
        ((∀ p ∈ pairs, Convertible p) →
          readCases .float text = .ok (pairs.map Case.converted)) ∧
        ((∃ p ∈ pairs, ¬ Convertible p) →
          ∃ (index : Nat) (p : Int × Int) (e : CaseError), pairs[index]? = some p ∧
            ¬ Convertible p ∧
            (∀ (i : Nat) q, i < index → pairs[i]? = some q → Convertible q) ∧
            readCases .float text = .error e ∧ e.caseIndex = index ∧
            e.fault = .literal (if (Binary64.ofInt p.1).isFinite then .expected else .input))) ∧
    ∀ (pairs : List (Binary64 × Binary64)) (text : String),
      (∀ p ∈ pairs, p.1.isFinite = true ∧ p.2.isFinite = true) →
      WrittenCases (pairs.map Case.ofDoubles) text →
        readCases .float text = .ok (pairs.map Case.ofDoubles) := by
  refine ⟨fun pairs text hshort hwritten => ?_, fun pairs text hfinite hwritten => readCases_of_map
    (spells_ofDoubles hfinite hwritten) fun p hp => caseOf_ofDoubles (hfinite p hp)⟩
  have hspells := spells_ofIntegers hshort hwritten
  refine ⟨readCases_of_map hspells fun p _ => caseOf_ofIntegers p,
    fun h => readCases_of_map hspells fun p hp => caseOf_converted (h p hp), ?_⟩
  rintro ⟨p, hp, hlarge⟩
  obtain ⟨index, q, e, hq, hoffends, hfirst, hread, hindex⟩ :=
    reported_of_map hspells hp (offence_ofIntegers_iff.mpr ⟨hlarge, rfl⟩)
  obtain ⟨hlarge, hfault⟩ := offence_ofIntegers_iff.mp hoffends
  refine ⟨index, q, e, hq, hlarge, fun i r hi hr => by_contra fun hno => ?_, hread, hindex, hfault⟩
  exact hfirst i r hi hr _ (offence_ofIntegers_iff.mpr ⟨hno, rfl⟩)

/-- A negative integer in an uneven layout, an integer of 401 digits as an expected output, and a
negative zero. -/
theorem written_cases_read_back_uneven :
    WrittenCases [.ofIntegers (-7, 0)] "\t[(-7\n 0 )]" ∧
    readCases .integer "\t[(-7\n 0 )]" = .ok [.ofIntegers (-7, 0)] ∧
    readCases .float "\t[(-7\n 0 )]" = .ok [.converted (-7, 0)] ∧
    (∃ e, readCases .float (Program.text
        [(Case.ofIntegers (1, 2)).item, (Case.ofIntegers (3, powerOfTen 400)).item]) = .error e ∧
      e.caseIndex = 1 ∧ e.fault = .literal .expected) ∧
    WrittenCases [.ofDoubles (.signed true .zero, .ofInt 2)] "([-0.0 \t2.0])" ∧
    readCases .float "([-0.0 \t2.0])" = .ok [.ofDoubles (.signed true .zero, .ofInt 2)] := by
  obtain ⟨hintegers, hdoubles⟩ := written_cases_read_back
  have huneven : WrittenCases [.ofIntegers (-7, 0)] "\t[(-7\n 0 )]" := by
    have hcase := @WrittenCase.mk (.ofIntegers (-7, 0)) .round [] ['\n', ' '] [' ']
      (by decide) (by decide) (by decide) (by decide)
    have hrow := @WrittenRow.cons _ _ [] _ [] (by decide) hcase (.nil (by decide))
    exact ⟨.square, ['\t'], _, [], by decide, hrow, by decide, by decide +kernel⟩
  have hzero : WrittenCases [.ofDoubles (.signed true .zero, .ofInt 2)] "([-0.0 \t2.0])" := by
    have hcase := @WrittenCase.mk (.ofDoubles (.signed true .zero, .ofInt 2)) .square []
      [' ', '\t'] [] (by decide) (by decide) (by decide) (by decide)
    have hrow := @WrittenRow.cons _ _ [] _ [] (by decide) hcase (.nil (by decide))
    exact ⟨.round, [], _, [], by decide, hrow, by decide, by decide +kernel⟩
  obtain ⟨hinteger, hfloat, -⟩ := hintegers [(-7, 0)] _ (by decide) huneven
  have hsmall : Convertible (1, 2) := by decide +kernel
  have hlarge : ¬ Convertible (3, powerOfTen 400) := by decide +kernel
  have hdigits : Text.IsShort (powerOfTen 400) := isShort_powerOfTen_iff.mpr (by decide)
  obtain ⟨-, -, hreport⟩ := hintegers [(1, 2), (3, powerOfTen 400)] _
    (by simpa using ⟨⟨by decide, by decide⟩, by decide, hdigits⟩) (writtenCases_text _)
  obtain ⟨index, p, e, hp, hp', -, hread, hindex, hfault⟩ :=
    hreport ⟨(3, powerOfTen 400), by simp, hlarge⟩
  have hplace : index = 1 ∧ p = (3, powerOfTen 400) := by
    cases index with
    | zero =>
        obtain rfl := Option.some.inj hp
        exact absurd hsmall hp'
    | succ index =>
        cases index with
        | zero => exact ⟨rfl, (Option.some.inj hp).symm⟩
        | succ index => cases hp
  obtain ⟨rfl, rfl⟩ := hplace
  have hthree : (Binary64.ofInt 3).isFinite = true := by decide +kernel
  rw [if_pos hthree] at hfault
  refine ⟨huneven, hinteger, hfloat ?_, ⟨e, hread, hindex, hfault⟩, hzero,
    hdoubles [(.signed true .zero, .ofInt 2)] _ ?_ hzero⟩
  · decide +kernel
  · decide +kernel

end PushFitness
