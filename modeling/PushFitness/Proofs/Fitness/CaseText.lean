import Mathlib.Data.List.Forall2
import PushFitness.Fitness.CaseText
import PushFitness.Proofs.Program.Reading
import PushFitness.Proofs.Program.Tokens

/-!
# Which texts are sets of cases

The text of a set of cases is read between two extra brackets, and brackets can pair with the
extra ones: `) (` is two lists when it stands between `(` and `)`. No such text is accepted.
The extra brackets make one list only if what stands between them is balanced by itself
(`Spells.of_bracketed`). If it is not, the reader finds a fault, or it finds several items,
and then it strips no list off and the extra brackets have to be items of their own.

`reads_case_lists` therefore speaks of the tokens of the text alone. What the items of the list
have to be is said by two relations without the reader, `Literal` and `CaseOf`.
-/

namespace PushFitness

/-! ## Literals and cases -/

/-- The number that an item is for a problem. -/
inductive Literal : ProblemType → Item → Scalar → Prop
  | integer (n : Int) : Literal .integer (.int n) (.int n)
  | float (x : Binary64) (h : x.isFinite = true) : Literal .float (.float x) (.float x)
  | converted (n : Int) (h : (Binary64.ofInt n).isFinite = true) :
      Literal .float (.int n) (.float (Binary64.ofInt n))

theorem Binary64.ofInt?_eq_some_iff {n : Int} {x : Binary64} :
    ofInt? n = some x ↔ (ofInt n).isFinite = true ∧ ofInt n = x := by
  have hfinite : (ofInt n).isFinite = !(ofInt n).isInfinite := rfl
  rw [ofInt?, hfinite]
  cases (ofInt n).isInfinite with
  | true => simp
  | false => simp

theorem finiteLiteral_eq_ok_iff {item : Item} {found : Option Binary64} {v : Scalar} :
    finiteLiteral item found = .ok v ↔ ∃ x, found = some x ∧ .float x = v := by
  cases found with
  | none => simp [finiteLiteral]
  | some x => simp [finiteLiteral]

theorem literal_eq_ok_iff {t : ProblemType} {item : Item} {v : Scalar} :
    t.literal item = .ok v ↔ Literal t item v := by
  constructor
  · intro h
    cases t with
    | integer =>
        cases item with
        | int n =>
            obtain rfl := Except.ok.inj h
            exact .integer n
        | float _ | bool _ | name _ | list _ | hole => cases h
    | float =>
        cases item with
        | int n =>
            obtain ⟨x, hx, rfl⟩ := finiteLiteral_eq_ok_iff.mp h
            obtain ⟨hfinite, rfl⟩ := Binary64.ofInt?_eq_some_iff.mp hx
            exact .converted n hfinite
        | float x =>
            obtain ⟨y, hy, rfl⟩ := finiteLiteral_eq_ok_iff.mp h
            obtain ⟨hfinite, hsome⟩ := Option.ite_none_right_eq_some.mp hy
            obtain rfl := Option.some.inj hsome
            exact .float x hfinite
        | bool _ | name _ | list _ | hole => cases h
  · intro h
    cases h with
    | integer n => rfl
    | float x hfinite => exact finiteLiteral_eq_ok_iff.mpr ⟨x, if_pos hfinite, rfl⟩
    | converted n hfinite =>
        have hfound := Binary64.ofInt?_eq_some_iff.mpr ⟨hfinite, rfl⟩
        exact finiteLiteral_eq_ok_iff.mpr ⟨_, hfound, rfl⟩

/-- The case that an item is: a list whose first two items are literals. -/
inductive CaseOf (t : ProblemType) : Item → Case → Prop
  | mk {input expected : Item} {i o : Scalar} (hinput : Literal t input i)
      (hexpected : Literal t expected o) (ignored : List Item) :
      CaseOf t (.list (input :: expected :: ignored)) ⟨i, o⟩

theorem ofItem_eq_ok_iff {t : ProblemType} {index : Nat} {item : Item} {c : Case} :
    Case.ofItem t index item = .ok c ↔ CaseOf t item c := by
  constructor
  · intro h
    unfold Case.ofItem at h
    split at h
    · next input expected ignored =>
        cases hinput : t.literal input with
        | error e => rw [hinput] at h; cases h
        | ok i =>
            cases hexpected : t.literal expected with
            | error e => rw [hinput, hexpected] at h; cases h
            | ok o =>
                rw [hinput, hexpected] at h
                obtain rfl := Except.ok.inj h
                exact .mk (literal_eq_ok_iff.mp hinput) (literal_eq_ok_iff.mp hexpected) ignored
    · cases h
  · rintro ⟨hinput, hexpected, ignored⟩
    rw [Case.ofItem]
    simp only [literal_eq_ok_iff.mpr hinput, literal_eq_ok_iff.mpr hexpected]

/-- Reading goes well if every item is a case, and gives one case for each in their order. -/
theorem ofItems_eq_ok_iff {t : ProblemType} {items : List Item} {index : Nat}
    {cases : List Case} :
    (CaseReading.ofItems t index items).result = .ok cases ↔
      List.Forall₂ (CaseOf t) items cases := by
  induction items generalizing index cases with
  | nil =>
      rw [List.forall₂_nil_left_iff]
      constructor
      · intro h
        exact (Except.ok.inj h).symm
      · rintro rfl
        rfl
  | cons item items ih =>
      rw [CaseReading.ofItems, List.forall₂_cons_left_iff]
      cases hitem : Case.ofItem t index item with
      | error e =>
          constructor
          · intro h
            cases h
          · rintro ⟨c, cs, hc, -, -⟩
            rw [ofItem_eq_ok_iff.mpr hc] at hitem
            cases hitem
      | ok c =>
          have hresult : (CaseReading.mk (c :: (CaseReading.ofItems t (index + 1) items).cases)
              (CaseReading.ofItems t (index + 1) items).error?).result =
              (CaseReading.ofItems t (index + 1) items).result.map (c :: ·) := by
            rw [CaseReading.result, CaseReading.result]
            cases (CaseReading.ofItems t (index + 1) items).error? <;> rfl
          simp only [hresult]
          constructor
          · intro h
            cases hrest : (CaseReading.ofItems t (index + 1) items).result with
            | error e => rw [hrest] at h; cases h
            | ok cs =>
                rw [hrest] at h
                exact ⟨c, cs, ofItem_eq_ok_iff.mp hitem, ih.mp hrest, (Except.ok.inj h).symm⟩
          · rintro ⟨c', cs, hc', hcs, rfl⟩
            rw [ofItem_eq_ok_iff.mpr hc'] at hitem
            obtain rfl := Except.ok.inj hitem
            rw [ih.mpr hcs]
            rfl

/-! ## The extra brackets -/

/-- If brackets around tokens make one list of them, the tokens are balanced by themselves. -/
theorem Spells.of_bracketed {b : Bracket} {tokens : List Token} {xs : List Item}
    (h : Spells (.opening b :: (tokens ++ [.closing b])) [.list xs]) : Spells tokens xs := by
  obtain ⟨b', inner, heq, hinner⟩ := h.of_list
  have htail := (List.cons.inj heq).2
  have hsame := (List.append_inj' htail rfl).1
  rw [hsame]
  exact hinner

/-- Stripping one list off leaves one list only of a list in a list. -/
theorem Program.ofItems_eq_list_iff {items xs : List Item} :
    ofItems items = [.list xs] ↔ items = [.list [.list xs]] := by
  constructor
  · intro h
    unfold ofItems at h
    split at h
    · next ys => rw [h]
    · next hmany => exact (hmany xs h).elim
  · rintro rfl
    rfl

theorem ofText_bracketed (text : String) :
    Token.ofText (bracketed text) =
      .opening .round :: (Token.ofText text ++ [.closing .round]) := by
  have hchars : (bracketed text).toList = '(' :: ' ' :: (text.toList ++ [' ', ')']) := by
    simp [bracketed]
  rw [Token.ofText, hchars]
  exact Token.ofChars_between .round text.toList

theorem topItems_eq_ok_iff {text : String} {items : List Item} :
    CaseReading.topItems text = .ok items ↔ Spells (Token.ofText text) [.list items] := by
  have hread : Program.ofText (bracketed text) = .ok [.list items] ↔
      Spells (Token.ofText text) [.list items] := by
    rw [Program.ofText_eq_ok_iff, ofText_bracketed]
    constructor
    · rintro ⟨found, hspells, hstrip⟩
      rw [Program.ofItems_eq_list_iff.mp hstrip] at hspells
      exact hspells.of_bracketed
    · intro h
      exact ⟨_, h.bracketed .round, rfl⟩
  rw [← hread, CaseReading.topItems]
  split
  · next h => rw [h]; simp
  · next _ h => rw [h]; simp
  · next found h => rw [h]; simp
  · next p hmany h =>
      rw [h]
      constructor
      · intro h'
        cases h'
      · intro h'
        exact absurd (Except.ok.inj h') (hmany items)

theorem readCases_eq_ok_iff {t : ProblemType} {text : String} {cases : List Case} :
    readCases t text = .ok cases ↔
      ∃ items, Spells (Token.ofText text) [.list items] ∧ List.Forall₂ (CaseOf t) items cases := by
  rw [readCases, CaseReading.ofText]
  cases h : CaseReading.topItems text with
  | error e =>
      constructor
      · intro h'
        cases h'
      · rintro ⟨items, hspells, -⟩
        rw [topItems_eq_ok_iff.mpr hspells] at h
        cases h
  | ok items =>
      have hspells := topItems_eq_ok_iff.mp h
      rw [ofItems_eq_ok_iff]
      constructor
      · intro hcases
        exact ⟨items, hspells, hcases⟩
      · rintro ⟨items', hspells', hcases⟩
        obtain rfl := Item.list.inj (List.cons.inj (hspells.unique hspells')).1
        exact hcases

/-- Without long integers a text that is no program is unusable as a whole. -/
theorem readCases_of_error {text : String} {e : ReadError} (t : ProblemType)
    (hshort : ShortIntegers (Token.ofText text)) (h : Program.ofText text = .error e) :
    ∃ e', readCases t text = .error e' ∧ e'.fault = .form ∧ e'.caseIndex = -1 ∧
      e'.raw text = text := by
  have hunspelled : ∀ items, ¬ Spells (Token.ofText text) items := by
    intro items hspells
    rw [Program.ofText_eq_ok_iff.mpr ⟨items, hspells, rfl⟩] at h
    cases h
  have hwrapped : ShortIntegers (Token.ofText (bracketed text)) := by
    intro cs count hcs
    rw [ofText_bracketed] at hcs
    exact hshort cs count (by simpa using hcs)
  rw [readCases, CaseReading.ofText, CaseReading.topItems]
  split
  · next e' h' =>
      split at h'
      · next e'' h'' =>
          have htext := Program.ofText_text? hwrapped h''
          cases htext
      · next e'' _ h'' =>
          obtain rfl := Except.error.inj h'
          exact ⟨_, rfl, rfl, rfl, rfl⟩
      · cases h'
      · obtain rfl := Except.error.inj h'
        exact ⟨_, rfl, rfl, rfl, rfl⟩
  · next items h' =>
      exact absurd (topItems_eq_ok_iff.mp h') (hunspelled _)

/-- A text without long integers is a set of cases if its tokens are one balanced list, and
every item of that list is one whose first two items are literals of the problem. The cases
are these pairs of literals in the order of the list. A text that is no program is reported as a
whole, also if it would be one between two more brackets. -/
theorem reads_case_lists (t : ProblemType) (text : String)
    (hshort : ShortIntegers (Token.ofText text)) :
    (∀ cases, readCases t text = .ok cases ↔
      ∃ b inner items, Token.ofText text = .opening b :: (inner ++ [.closing b]) ∧
        Spells inner items ∧ List.Forall₂ (CaseOf t) items cases) ∧
    ∀ e, Program.ofText text = .error e →
      ∃ e', readCases t text = .error e' ∧ e'.fault = .form ∧ e'.caseIndex = -1 ∧
        e'.raw text = text := by
  refine ⟨fun cases => ?_, fun e h => readCases_of_error t hshort h⟩
  rw [readCases_eq_ok_iff]
  constructor
  · rintro ⟨items, hspells, hcases⟩
    obtain ⟨b, inner, htokens, hinner⟩ := hspells.of_list
    exact ⟨b, inner, items, htokens, hinner, hcases⟩
  · rintro ⟨b, inner, items, htokens, hinner, hcases⟩
    exact ⟨items, htokens ▸ hinner.bracketed b, hcases⟩

/-- A list of cases in both styles of brackets, and a text that closes the extra bracket. -/
theorem reads_case_lists_closing :
    ShortIntegers (Token.ofText "[(1 2 x) [-3 4]]") ∧
    (∃ b inner items, Token.ofText "[(1 2 x) [-3 4]]" = .opening b :: (inner ++ [.closing b]) ∧
      Spells inner items ∧
      List.Forall₂ (CaseOf .integer) items [⟨.int 1, .int 2⟩, ⟨.int (-3), .int 4⟩]) ∧
    ShortIntegers (Token.ofText "[1 2]) ([3 4]") ∧
    ∃ e, readCases .integer "[1 2]) ([3 4]" = .error e ∧ e.fault = .form ∧ e.caseIndex = -1 ∧
      e.raw "[1 2]) ([3 4]" = "[1 2]) ([3 4]" := by
  have hlist : ShortIntegers (Token.ofText "[(1 2 x) [-3 4]]") :=
    shortIntegers_of_length (by decide +kernel)
  have hclosing : ShortIntegers (Token.ofText "[1 2]) ([3 4]") :=
    shortIntegers_of_length (by decide +kernel)
  refine ⟨hlist, ((reads_case_lists .integer _ hlist).1 _).mp rfl, hclosing, ?_⟩
  exact (reads_case_lists .integer _ hclosing).2 (.unexpected .round) rfl

end PushFitness
