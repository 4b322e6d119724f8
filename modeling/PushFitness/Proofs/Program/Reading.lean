import PushFitness.Proofs.Program.Grammar

/-!
# What is read of a text, and what it keeps

A program is written out as a row of lexemes, with an opening and a closing lexeme for
every list and its leaves between them. The lexemes of a text are its tokens without the
style of the brackets, and with its words read. `reads_balanced_texts` says which texts are
programs and that the two rows are the same, up to the pair of brackets that belongs to the
program itself. A row of lexemes can be taken apart in one way only, so nothing of a text is
lost but the style of its brackets and its blanks (`lexemesOf_injective`).
-/

namespace PushFitness

/-- A token without the style of a bracket, and with its word read. -/
inductive Lexeme
  | opening
  | closing
  | atom (item : Item)

namespace Token

def lexeme : Token → Except TooManyDigits Lexeme
  | opening _ => .ok .opening
  | closing _ => .ok .closing
  | word cs => (Item.ofWord cs).map .atom

/-- A token with round brackets for square ones. -/
def rounded : Token → Token
  | opening _ => opening .round
  | closing _ => closing .round
  | word cs => word cs

theorem lexeme_rounded (t : Token) : t.rounded.lexeme = t.lexeme := by
  cases t <;> rfl

end Token

namespace Item

mutual

/-- An item written out. -/
def lexemes : Item → List Lexeme
  | list items => .opening :: (lexemesOf items ++ [.closing])
  | leaf => [.atom leaf]

/-- Several items written out one after the other. -/
def lexemesOf : List Item → List Lexeme
  | [] => []
  | item :: items => item.lexemes ++ lexemesOf items

end

theorem lexemes_of_ne_list {item : Item} (h : ∀ items, item ≠ .list items) :
    item.lexemes = [.atom item] := by
  rw [lexemes]
  exact h

theorem lexemes_list_append (items : List Item) (rest : List Lexeme) :
    (list items).lexemes ++ rest = .opening :: (lexemesOf items ++ .closing :: rest) := by
  rw [lexemes, List.cons_append, List.append_assoc, List.singleton_append]

mutual

/-- The lexemes of an item show where it ends. -/
theorem lexemes_append_inj (x y : Item) {rest rest' : List Lexeme}
    (h : x.lexemes ++ rest = y.lexemes ++ rest') : x = y ∧ rest = rest' := by
  cases x with
  | list xs =>
      rw [lexemes_list_append] at h
      cases y with
      | list ys =>
          rw [lexemes_list_append] at h
          obtain ⟨rfl, hrest⟩ := lexemesOf_append_inj xs ys (List.cons.inj h).2
          exact ⟨rfl, hrest⟩
      | int _ | float _ | bool _ | name _ | hole =>
          rw [lexemes_of_ne_list (by simp)] at h
          cases h
  | int _ | float _ | bool _ | name _ | hole =>
      rw [lexemes_of_ne_list (by simp)] at h
      cases y with
      | list ys =>
          rw [lexemes_list_append] at h
          cases h
      | int _ | float _ | bool _ | name _ | hole =>
          rw [lexemes_of_ne_list (by simp)] at h
          obtain ⟨hhead, htail⟩ := List.cons.inj h
          exact ⟨Lexeme.atom.inj hhead, htail⟩

/-- The lexemes of several items in a list end with the list. -/
theorem lexemesOf_append_inj (xs ys : List Item) {rest rest' : List Lexeme}
    (h : lexemesOf xs ++ .closing :: rest = lexemesOf ys ++ .closing :: rest') :
    xs = ys ∧ rest = rest' := by
  match xs, ys with
  | [], [] =>
      rw [lexemesOf] at h
      exact ⟨rfl, (List.cons.inj h).2⟩
  | x :: xs, y :: ys =>
      rw [lexemesOf, lexemesOf, List.append_assoc, List.append_assoc] at h
      obtain ⟨rfl, hbehind⟩ := lexemes_append_inj x y h
      obtain ⟨rfl, hrest⟩ := lexemesOf_append_inj xs ys hbehind
      exact ⟨rfl, hrest⟩
  | [], y :: ys =>
      rw [lexemesOf, lexemesOf, List.append_assoc] at h
      cases y <;> cases h
  | x :: xs, [] =>
      rw [lexemesOf, lexemesOf, List.append_assoc] at h
      cases x <;> cases h

end

theorem lexemesOf_injective {xs ys : List Item} (h : lexemesOf xs = lexemesOf ys) : xs = ys :=
  (lexemesOf_append_inj xs ys (congrArg (· ++ [.closing]) h)).1

end Item

/-- A program written out, with its own pair of brackets. -/
def Program.lexemes (program : Program) : List Lexeme := (Item.list program).lexemes

/-! ## The lexemes of what is spelled -/

theorem Spells.lexemes {tokens : List Token} {items : List Item} (h : Spells tokens items) :
    tokens.mapM Token.lexeme = .ok (Item.lexemesOf items) := by
  induction h with
  | nil => rfl
  | @word cs atom hatom tokens items _ ih =>
      have hword : (Token.word cs).lexeme = .ok (.atom atom) := by
        rw [Token.lexeme, hatom]
        rfl
      rw [List.mapM_cons, hword, ih, Item.lexemesOf,
        Item.lexemes_of_ne_list (Item.ofWord_ne_list hatom)]
      rfl
  | list b _ _ ihinner ih =>
      rw [List.mapM_cons, List.mapM_append, List.mapM_cons, ihinner, ih, Item.lexemesOf,
        Item.lexemes_list_append]
      rfl

/-! ## Texts -/

/-- No word of a text is an integer that is too long to be read. -/
def ShortIntegers (tokens : List Token) : Prop :=
  ∀ cs count, Token.word cs ∈ tokens → IntegerWord cs count → count ≤ Text.maxIntegerDigits

theorem ShortIntegers.word_ok {tokens : List Token} (h : ShortIntegers tokens) :
    ∀ cs, Token.word cs ∈ tokens → ∃ atom, Item.ofWord cs = .ok atom := by
  intro cs hcs
  cases hatom : Item.ofWord cs with
  | ok atom => exact ⟨atom, rfl⟩
  | error e =>
      obtain ⟨hword, hmany⟩ := Item.ofWord_eq_error_iff.mp hatom
      exact absurd (h cs e.count hcs hword) (Nat.not_le_of_lt hmany)

/-- A text of short words has no long integers. -/
theorem shortIntegers_of_length {tokens : List Token}
    (h : ∀ t ∈ tokens, t.chars.length ≤ Text.maxIntegerDigits) : ShortIntegers tokens := by
  intro cs count hcs hword
  exact Nat.le_trans hword.count_le (h _ hcs)

/-- The text is one list: its first bracket is closed at its end. -/
def OneList (tokens : List Token) : Prop :=
  ∃ b inner, Balanced inner ∧ tokens = .opening b :: (inner ++ [.closing b])

theorem Program.ofText_eq_ok_iff {text : String} {p : Program} :
    ofText text = .ok p ↔ ∃ items, Spells (Token.ofText text) items ∧ ofItems items = p := by
  show (readItems (Token.ofText text)).map ofItems = .ok p ↔ _
  constructor
  · intro h
    cases hread : readItems (Token.ofText text) with
    | error e => rw [hread] at h; cases h
    | ok items =>
        rw [hread] at h
        exact ⟨items, readItems_eq_ok_iff.mp hread, Except.ok.inj h⟩
  · rintro ⟨items, hspells, rfl⟩
    rw [readItems_eq_ok_iff.mpr hspells]
    rfl

theorem Program.ofText_eq_error_iff {text : String} {e : ReadError} :
    ofText text = .error e ↔ readItems (Token.ofText text) = .error e := by
  show (readItems (Token.ofText text)).map ofItems = _ ↔ _
  cases readItems (Token.ofText text) with
  | error e' => simp [Except.map]
  | ok items => simp [Except.map]

/-- If a text that is no program has no long integers, all of it is reported. -/
theorem Program.ofText_text? {text : String} {e : ReadError}
    (hshort : ShortIntegers (Token.ofText text)) (h : ofText text = .error e) :
    e.text? text = some text := by
  have hread := ofText_eq_error_iff.mp h
  cases e with
  | unexpected b | unclosed b => rfl
  | tooManyDigits e =>
      obtain ⟨cs, hcs, herror⟩ := Reading.exists_word_of_tooManyDigits hread
      obtain ⟨atom, hatom⟩ := hshort.word_ok cs hcs
      rw [herror] at hatom
      cases hatom

namespace Spells

variable {tokens : List Token} {items : List Item}

/-- What is spelled by one list is one list. -/
theorem oneList_iff (h : Spells tokens items) : OneList tokens ↔ ∃ xs, items = [.list xs] := by
  constructor
  · rintro ⟨b, inner, hinner, rfl⟩
    obtain ⟨xs, hxs⟩ := hinner.spells fun cs hcs => h.word_ok cs (by simp [hcs])
    exact ⟨xs, h.unique (hxs.bracketed b)⟩
  · rintro ⟨xs, rfl⟩
    obtain ⟨b, inner, rfl, hinner⟩ := h.of_list
    exact ⟨b, inner, hinner.balanced, rfl⟩

theorem lexemes_ofItems (h : Spells tokens items) :
    (OneList tokens → (Program.ofItems items).lexemes = Item.lexemesOf items) ∧
    (¬ OneList tokens → (Program.ofItems items).lexemes =
      .opening :: (Item.lexemesOf items ++ [.closing])) := by
  constructor
  · intro hone
    obtain ⟨xs, rfl⟩ := h.oneList_iff.mp hone
    rw [Program.lexemes, Item.lexemesOf, Item.lexemesOf, List.append_nil]
    rfl
  · intro hmany
    rw [h.oneList_iff] at hmany
    have hsame : Program.ofItems items = items := by
      unfold Program.ofItems
      split
      · next xs => exact absurd ⟨xs, rfl⟩ hmany
      · rfl
    rw [Program.lexemes, hsame, Item.lexemes]

end Spells

/-- A text without long integers is a program if its brackets are balanced, and otherwise all
of it is reported as faulty. Written out, the program is the text without the style of its
brackets and its blanks, and with a pair of brackets around it if the text is not one list. So
texts that differ in nothing else are the same program. -/
theorem reads_balanced_texts (text : String) (hshort : ShortIntegers (Token.ofText text)) :
    ((∃ p, Program.ofText text = .ok p) ↔ Balanced (Token.ofText text)) ∧
    (¬ Balanced (Token.ofText text) →
      ∃ e, Program.ofText text = .error e ∧ e.text? text = some text) ∧
    ∀ p, Program.ofText text = .ok p →
      (∃ lexemes, (Token.ofText text).mapM Token.lexeme = .ok lexemes ∧
        (OneList (Token.ofText text) → p.lexemes = lexemes) ∧
        (¬ OneList (Token.ofText text) → p.lexemes = .opening :: (lexemes ++ [.closing]))) ∧
      ∀ other q, Program.ofText other = .ok q →
        (Token.ofText other).map Token.rounded = (Token.ofText text).map Token.rounded → q = p := by
  have haccepts : (∃ p, Program.ofText text = .ok p) ↔ Balanced (Token.ofText text) := by
    constructor
    · rintro ⟨p, hp⟩
      obtain ⟨items, hspells, -⟩ := Program.ofText_eq_ok_iff.mp hp
      exact hspells.balanced
    · intro hbalanced
      obtain ⟨items, hspells⟩ := hbalanced.spells hshort.word_ok
      exact ⟨_, Program.ofText_eq_ok_iff.mpr ⟨items, hspells, rfl⟩⟩
  refine ⟨haccepts, fun hunbalanced => ?_, fun p hp => ?_⟩
  · cases h : Program.ofText text with
    | ok p => exact absurd (haccepts.mp ⟨p, h⟩) hunbalanced
    | error e => exact ⟨e, rfl, Program.ofText_text? hshort h⟩
  · obtain ⟨items, hspells, rfl⟩ := Program.ofText_eq_ok_iff.mp hp
    refine ⟨⟨_, hspells.lexemes, hspells.lexemes_ofItems⟩, fun other q hq hrounded => ?_⟩
    obtain ⟨items', hspells', rfl⟩ := Program.ofText_eq_ok_iff.mp hq
    have hsame := congrArg (List.mapM Token.lexeme) hrounded
    simp only [List.mapM_map, Function.comp_def, Token.lexeme_rounded] at hsame
    rw [hspells.lexemes, hspells'.lexemes] at hsame
    rw [Item.lexemesOf_injective (Except.ok.inj hsame)]

theorem reads_balanced_texts_mixed :
    ShortIntegers (Token.ofText "[1 ( x [] ) ] +02") ∧
    Balanced (Token.ofText "[1 ( x [] ) ] +02") ∧
    Program.ofText "[1 ( x [] ) ] +02" =
      .ok [.list [.int 1, .list [.name "x", .list []]], .int 2] ∧
    ∀ q, Program.ofText "(1[x()])  +02" = .ok q →
      q = [.list [.int 1, .list [.name "x", .list []]], .int 2] := by
  have hshort : ShortIntegers (Token.ofText "[1 ( x [] ) ] +02") :=
    shortIntegers_of_length (by decide +kernel)
  have hread : Program.ofText "[1 ( x [] ) ] +02" =
      .ok [.list [.int 1, .list [.name "x", .list []]], .int 2] := by rfl
  obtain ⟨haccepts, -, hkeeps⟩ := reads_balanced_texts "[1 ( x [] ) ] +02" hshort
  refine ⟨hshort, haccepts.mp ⟨_, hread⟩, hread, fun q hq => ?_⟩
  exact (hkeeps _ hread).2 "(1[x()])  +02" q hq (by decide +kernel)

end PushFitness
