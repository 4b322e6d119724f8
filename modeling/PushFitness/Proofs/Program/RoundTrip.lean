import PushFitness.Program.Printer
import PushFitness.Proofs.Binary64.Text
import PushFitness.Proofs.Program.Reading
import PushFitness.Proofs.Program.Size

/-!
# Programs read back from their text

Every leaf of a program that has been read is an atom some word spells, and it is written as a
word that spells it again. The one exception is an infinite double: no word for an
infinity is a number, so its text is read as a name (`reread`). Lists are written with blanks
around everything in them, so the tokens of the text are those of the leaves between
brackets (`spells_chars`), and reading goes on from there as for any other text.

The name that is read in place of an infinity is its text, so writing again changes nothing.
-/

namespace PushFitness

open Text

namespace Item

/-! ## Leaves -/

/-- An atom that some word spells. -/
def Legible (leaf : Item) : Prop := ∃ cs, Token.IsWord cs ∧ ofWord cs = .ok leaf

/-! ### Integers -/

theorem signedDigits?_integerChars (n : Int) : signedDigits? (integerChars n) =
    some (decide (n < 0), latinValues (Nat.toDigits 10 n.natAbs)) := by
  have hne : Nat.toDigits 10 n.natAbs ≠ [] := Nat.toDigits_ne_nil
  obtain ⟨c, cs, hcons⟩ := List.exists_cons_of_ne_nil hne
  have hc : c.isDigit = true := isDigit_of_mem_toDigits c (hcons ▸ List.mem_cons_self)
  have hvalues := digitValues?_latin (isDigit_of_mem_toDigits (n := n.natAbs))
  have hsign : takeSign (integerChars n) = (decide (n < 0), Nat.toDigits 10 n.natAbs) := by
    rw [integerChars]
    by_cases hn : n < 0
    · rw [if_pos hn, decide_eq_true hn]
      rfl
    · rw [if_neg hn, decide_eq_false hn, hcons]
      exact takeSign_of_digit (isDigit_latin hc) cs
  rw [hcons] at hvalues hsign ⊢
  simp only [signedDigits?, hsign, hvalues]
  rfl

theorem length_toDigits_le (negative : Bool) {ds : List Nat} (hds : ∀ d ∈ ds, d < 10)
    (hpos : 0 < ds.length) :
    (Nat.toDigits 10 (signedValue negative ds).natAbs).length ≤ ds.length := by
  have hvalue : (signedValue negative ds).natAbs = ofDigits ds := by
    rw [signedValue]
    split <;> omega
  rw [hvalue, Nat.length_toDigits_le_iff (by decide) hpos]
  exact ofDigits_lt hds

theorem ofWord_integerChars {n : Int}
    (h : (Nat.toDigits 10 n.natAbs).length ≤ maxIntegerDigits) :
    ofWord (integerChars n) = .ok (.int n) := by
  rw [ofWord_of_signedDigits? (signedDigits?_integerChars n), length_latinValues, if_pos h,
    signedValue_of_natAbs (ofDigits_toDigits _)]

theorem integerChars_isWord (n : Int) : Token.IsWord (integerChars n) := by
  have hdigits : ∀ c ∈ Nat.toDigits 10 n.natAbs, Token.isWordChar c = true :=
    fun c hc => isWordChar_latin (isDigit_of_mem_toDigits c hc)
  rw [integerChars]
  split
  · refine ⟨List.cons_ne_nil _ _, fun c hc => ?_⟩
    rcases List.mem_cons.mp hc with rfl | hc
    · rfl
    · exact hdigits c hc
  · exact ⟨Nat.toDigits_ne_nil, hdigits⟩

/-! ## What is read for what is written -/

mutual

/-- An item with the name of its text in place of every infinite double. -/
def reread : Item → Item
  | list items => list (rereadAll items)
  | float x => if x.isInfinite then name x.text else float x
  | int n => int n
  | bool b => bool b
  | name s => name s
  | hole => hole

def rereadAll : List Item → List Item
  | [] => []
  | item :: items => item.reread :: rereadAll items

end

theorem ofWord_infinite {x : Binary64} (h : x.isInfinite = true) :
    ofWord x.chars = .ok (.name x.text) ∧ Token.IsWord x.chars := by
  cases x with
  | nan => cases h
  | signed negative m =>
      have hm : m = .infinity := of_decide_eq_true h
      subst hm
      cases negative <;> exact ⟨rfl, by decide⟩

theorem Legible.ofWord_chars {leaf : Item} (h : leaf.Legible) :
    ofWord leaf.chars = .ok leaf.reread ∧ Token.IsWord leaf.chars := by
  obtain ⟨cs, hword, hatom⟩ := h
  rcases ofWord_cases hatom with ⟨b, rfl⟩ | ⟨negative, ds, hds, hcount, rfl⟩ |
    ⟨negative, d, rfl⟩ | rfl
  · cases b <;> exact ⟨rfl, by decide⟩
  · -- leading zeros are lost, so what is written can only be shorter than what was read
    obtain ⟨hvalues, hpos⟩ := digitValues?_of_signedDigits? hds
    have hlength := length_toDigits_le negative (digitValues?_lt hvalues) hpos
    rw [chars, reread]
    exact ⟨ofWord_integerChars (Nat.le_trans hlength hcount), integerChars_isWord _⟩
  · rw [chars, reread]
    cases hinfinite : (Binary64.ofDecimal negative d).isInfinite with
    | true =>
        rw [if_pos rfl]
        exact ofWord_infinite hinfinite
    | false =>
        rw [if_neg Bool.false_ne_true]
        have hfinite : (Binary64.ofDecimal negative d).isFinite = true := by
          simpa [Binary64.ofDecimal, Binary64.isFinite, Binary64.isInfinite] using hinfinite
        exact Binary64.ofWord_chars hfinite
  · rw [chars, reread, String.toList_ofList]
    exact ⟨hatom, hword⟩

mutual

theorem chars_reread (item : Item) : item.reread.chars = item.chars := by
  cases item with
  | list items => rw [reread, chars, chars, charsOf_rereadAll items]
  | float x =>
      rw [reread]
      split
      · rw [chars, chars, Binary64.text, String.toList_ofList]
      · rfl
  | int _ | bool _ | name _ | hole => rw [reread]

theorem charsOf_rereadAll (items : List Item) : charsOf (rereadAll items) = charsOf items := by
  match items with
  | [] => rw [rereadAll]
  | item :: items => rw [rereadAll, charsOf, charsOf, chars_reread item, charsOf_rereadAll items]

end

mutual

/-- Nothing but an infinite double is read as something else. -/
theorem reread_eq_iff (item : Item) :
    item.reread = item ↔ ∀ x, float x ∈ item.leaves → x.isInfinite = false := by
  cases item with
  | list items =>
      rw [reread, leaves_list, ← rereadAll_eq_iff items]
      exact ⟨list.inj, congrArg list⟩
  | float y =>
      rw [leaves_of_ne_list (by simp), reread]
      constructor
      · intro h x hx
        obtain rfl := float.inj (List.mem_singleton.mp hx)
        split at h
        · cases h
        · next hfinite => exact Bool.eq_false_iff.mpr hfinite
      · intro h
        rw [if_neg]
        rw [h y (List.mem_singleton_self _)]
        exact Bool.false_ne_true
  | int _ | bool _ | name _ | hole =>
      rw [leaves_of_ne_list (by simp), reread]
      simp

theorem rereadAll_eq_iff (items : List Item) :
    rereadAll items = items ↔ ∀ x, float x ∈ leavesOf items → x.isInfinite = false := by
  match items with
  | [] => simp [rereadAll, leavesOf_nil]
  | item :: items =>
      rw [rereadAll, leavesOf_cons, List.cons.injEq, reread_eq_iff item, rereadAll_eq_iff items]
      simp only [List.mem_append, or_imp, forall_and]

end

/-! ## The tokens of what is written -/

theorem ofChars_charsOf_append (items : List Item) (more : List Char) :
    Token.ofChars (charsOf items ++ more) =
      Token.ofChars (charsOf items) ++ Token.ofChars more := by
  induction items with
  | nil => rw [charsOf, List.nil_append, Token.ofChars_nil, List.nil_append]
  | cons item items ih =>
      rw [charsOf, List.append_assoc, List.cons_append, Token.ofChars_append_blank rfl, ih,
        Token.ofChars_append_blank rfl, List.append_assoc]

theorem spells_leaf {leaf : Item} (h : leaf.Legible) :
    Spells (Token.ofChars leaf.chars) [leaf.reread] := by
  obtain ⟨hatom, hword⟩ := h.ofWord_chars
  rw [Token.ofChars_word hword]
  exact .word hatom .nil

mutual

theorem spells_chars (item : Item) (h : ∀ leaf ∈ item.leaves, leaf.Legible) :
    Spells (Token.ofChars item.chars) [item.reread] := by
  cases item with
  | list items =>
      rw [leaves_list] at h
      rw [chars, reread, Token.ofChars_bracket rfl, Token.ofChars_blank rfl,
        ofChars_charsOf_append, Token.ofChars_bracket rfl, Token.ofChars_nil]
      exact (spells_charsOf items h).bracketed .round
  | int _ | float _ | bool _ | name _ | hole =>
      rw [leaves_of_ne_list (by simp)] at h
      exact spells_leaf (h _ (List.mem_singleton_self _))

theorem spells_charsOf (items : List Item) (h : ∀ leaf ∈ leavesOf items, leaf.Legible) :
    Spells (Token.ofChars (charsOf items)) (rereadAll items) := by
  match items with
  | [] =>
      rw [charsOf, rereadAll]
      exact .nil
  | item :: items =>
      rw [leavesOf_cons] at h
      rw [charsOf, rereadAll, Token.ofChars_append_blank rfl]
      exact (spells_chars item fun leaf hleaf => h leaf (List.mem_append_left _ hleaf)).append
        (spells_charsOf items fun leaf hleaf => h leaf (List.mem_append_right _ hleaf))

end

end Item

/-! ## Programs -/

theorem Spells.legible {tokens : List Token} {items : List Item} (h : Spells tokens items)
    (hwords : ∀ cs, Token.word cs ∈ tokens → Token.IsWord cs) :
    ∀ leaf ∈ Item.leavesOf items, leaf.Legible := by
  induction h with
  | nil => simp [Item.leavesOf_nil]
  | @word cs atom hatom tokens items _ ih =>
      rw [Item.leavesOf_cons, Item.leaves_of_ne_list (Item.ofWord_ne_list hatom)]
      intro leaf hleaf
      rcases List.mem_cons.mp hleaf with rfl | hleaf
      · exact ⟨cs, hwords cs List.mem_cons_self, hatom⟩
      · exact ih (fun ds hds => hwords ds (List.mem_cons_of_mem _ hds)) leaf hleaf
  | list b _ _ ihinner ih =>
      rw [Item.leavesOf_cons, Item.leaves_list]
      intro leaf hleaf
      rcases List.mem_append.mp hleaf with hleaf | hleaf
      · exact ihinner (fun ds hds => hwords ds (by simp [hds])) leaf hleaf
      · exact ih (fun ds hds => hwords ds (by simp [hds])) leaf hleaf

theorem Item.leavesOf_ofItems (items : List Item) :
    leavesOf (Program.ofItems items) = leavesOf items := by
  unfold Program.ofItems
  split
  · next xs => exact (leavesOf_singleton xs).symm
  · rfl

theorem Program.legible_of_ofText {text : String} {p : Program} (h : ofText text = .ok p) :
    ∀ leaf ∈ Item.leavesOf p, leaf.Legible := by
  obtain ⟨items, hspells, rfl⟩ := ofText_eq_ok_iff.mp h
  rw [Item.leavesOf_ofItems]
  exact hspells.legible fun cs hcs => Token.isWord_of_mem_ofChars hcs

theorem Program.ofText_text {p : Program} (h : ∀ leaf ∈ Item.leavesOf p, leaf.Legible) :
    ofText p.text = .ok (Item.rereadAll p) := by
  have hspells := Item.spells_chars (.list p) (by rwa [Item.leaves_list])
  rw [Item.reread] at hspells
  refine ofText_eq_ok_iff.mpr ⟨[.list (Item.rereadAll p)], ?_, rfl⟩
  rw [text, Item.text, Token.ofText, String.toList_ofList]
  exact hspells

/-- A program that was read is read back from its text if and only if no double in it is
infinite. In any case its text is that of a program, which has the same text. -/
theorem written_programs_read_back (text : String) (p : Program)
    (h : Program.ofText text = .ok p) :
    (Program.ofText p.text = .ok p ↔
      ∀ x, Item.float x ∈ Item.leavesOf p → x.isInfinite = false) ∧
    ∃ q, Program.ofText p.text = .ok q ∧ q.text = p.text := by
  have hread := Program.ofText_text (Program.legible_of_ofText h)
  refine ⟨?_, Item.rereadAll p, hread, ?_⟩
  · rw [hread, ← Item.rereadAll_eq_iff]
    exact ⟨Except.ok.inj, congrArg Except.ok⟩
  · have hchars := Item.chars_reread (.list p)
    rw [Item.reread] at hchars
    rw [Program.text, Item.text, hchars]
    rfl

/-- A program with a negative zero, a list in a list and an empty list is read back, one with an
infinity is not. -/
theorem written_programs_read_back_infinite :
    Program.ofText "[(-0.0 [x]) [] +07]" = .ok
      [.list [.float (.signed true .zero), .list [.name "x"]], .list [], .int 7] ∧
    Program.ofText "( ( -0.0 ( x ) ) ( ) 7 )" = .ok
      [.list [.float (.signed true .zero), .list [.name "x"]], .list [], .int 7] ∧
    Program.ofText "[1e999 x]" = .ok [.float .infinity, .name "x"] ∧
    Program.ofText "( inf x )" ≠ .ok [.float .infinity, .name "x"] ∧
    ∃ q, Program.ofText "( inf x )" = .ok q ∧ q.text = "( inf x )" := by
  have hfinite : Program.ofText "[(-0.0 [x]) [] +07]" = .ok
      [.list [.float (.signed true .zero), .list [.name "x"]], .list [], .int 7] := by rfl
  have hinfinite : Program.ofText "[1e999 x]" = .ok [.float .infinity, .name "x"] := by rfl
  have hwritten : Program.text [.list [.float (.signed true .zero), .list [.name "x"]], .list [],
      .int 7] = "( ( -0.0 ( x ) ) ( ) 7 )" := by decide +kernel
  have hwritten' : Program.text [.float .infinity, .name "x"] = "( inf x )" := by decide +kernel
  have hsame := (written_programs_read_back _ _ hfinite).1
  obtain ⟨hsame', hagain⟩ := written_programs_read_back _ _ hinfinite
  rw [hwritten] at hsame
  rw [hwritten'] at hsame' hagain
  refine ⟨hfinite, hsame.mpr fun x hx => ?_, hinfinite, fun hback => ?_, hagain⟩
  · obtain rfl : x = .signed true .zero := by
      simpa [Item.leavesOf_cons, Item.leaves_list, Item.leavesOf_nil, Item.leaves_of_ne_list]
        using hx
    rfl
  · have hno := hsame'.mp hback .infinity (by simp [Item.leavesOf_cons, Item.leaves_of_ne_list])
    cases hno

end PushFitness
