import PushFitness.Program.Token

/-!
# Tokens of a text put together from parts

A blank between two texts keeps their tokens apart (`ofChars_append_blank`), and a bracket does
the same and is a token itself (`ofChars_append_bracket`). That is all that is needed of the
scanner: what is written with blanks around its parts has the tokens of its parts, however many
blanks there are, and a text between brackets has its own tokens between theirs. A word is
a token by itself if and only if it holds no blank and no bracket.
-/

namespace PushFitness.Token

/-- A character that can stand in a word. -/
def isWordChar (c : Char) : Bool := (ofBracket? c).isNone && !Text.isBlank c

/-- What a word token holds. -/
def IsWord (cs : List Char) : Prop := cs ≠ [] ∧ ∀ c ∈ cs, isWordChar c = true

instance : DecidablePred IsWord := fun cs =>
  decidable_of_iff (cs ≠ [] ∧ cs.all isWordChar = true) (and_congr_right fun _ => List.all_eq_true)

theorem ofBracket?_blank {c : Char} (h : Text.isBlank c = true) : ofBracket? c = none := by
  unfold ofBracket?
  split
  case h_5 => rfl
  all_goals exact absurd h (by decide)

theorem consWord_append (run : List Char) (tokens more : List Token) :
    consWord run (tokens ++ more) = consWord run tokens ++ more := by
  rw [consWord, consWord]
  split <;> rfl

theorem ofChars_nil : ofChars [] = [] := rfl

theorem scan_blank {c : Char} (h : Text.isBlank c = true) (cs : List Char) :
    scan (c :: cs) = ([], ofChars cs) := by
  rw [scan, ofBracket?_blank h]
  simp only [h, if_true]
  rfl

theorem scan_bracket {c : Char} {t : Token} (h : ofBracket? c = some t) (cs : List Char) :
    scan (c :: cs) = ([], t :: ofChars cs) := by
  rw [scan, h]
  rfl

theorem scan_wordChar {c : Char} (h : isWordChar c = true) (cs : List Char) :
    scan (c :: cs) = (c :: (scan cs).1, (scan cs).2) := by
  rw [isWordChar, Bool.and_eq_true, Option.isNone_iff_eq_none, Bool.not_eq_true'] at h
  obtain ⟨hbracket, hblank⟩ := h
  rw [scan, hbracket]
  simp [hblank]

theorem ofChars_blank {c : Char} (h : Text.isBlank c = true) (cs : List Char) :
    ofChars (c :: cs) = ofChars cs := by
  rw [ofChars, scan_blank h]
  rfl

theorem ofChars_bracket {c : Char} {t : Token} (h : ofBracket? c = some t) (cs : List Char) :
    ofChars (c :: cs) = t :: ofChars cs := by
  rw [ofChars, scan_bracket h]
  rfl

/-- The three kinds of characters. -/
theorem char_cases (c : Char) : (∃ t, ofBracket? c = some t) ∨ Text.isBlank c = true ∨
    isWordChar c = true := by
  cases hbracket : ofBracket? c with
  | some t => exact .inl ⟨t, rfl⟩
  | none =>
      cases hblank : Text.isBlank c with
      | true => exact .inr (.inl rfl)
      | false =>
          refine .inr (.inr ?_)
          rw [isWordChar, hbracket, hblank]
          rfl

/-- The scanner goes on by itself behind a character that ends every word. -/
theorem scan_append {c : Char} {more : List Char} {tokens : List Token}
    (h : scan (c :: more) = ([], tokens)) (cs : List Char) :
    scan (cs ++ c :: more) = ((scan cs).1, (scan cs).2 ++ tokens) := by
  induction cs with
  | nil => exact h
  | cons x cs ih =>
      have hrest : ofChars (cs ++ c :: more) = ofChars cs ++ tokens := by
        rw [ofChars, ih]
        exact consWord_append _ _ _
      rw [List.cons_append]
      rcases char_cases x with ⟨t, ht⟩ | hx | hx
      · rw [scan_bracket ht, scan_bracket ht, hrest]
        rfl
      · rw [scan_blank hx, scan_blank hx, hrest]
      · rw [scan_wordChar hx, scan_wordChar hx, ih]

/-- A blank keeps the tokens on its two sides apart. -/
theorem ofChars_append_blank {c : Char} (h : Text.isBlank c = true) (cs more : List Char) :
    ofChars (cs ++ c :: more) = ofChars cs ++ ofChars more := by
  rw [ofChars, scan_append (scan_blank h more)]
  exact consWord_append _ _ _

/-- A bracket keeps the tokens on its two sides apart and is one itself. -/
theorem ofChars_append_bracket {c : Char} {t : Token} (h : ofBracket? c = some t)
    (cs more : List Char) : ofChars (cs ++ c :: more) = ofChars cs ++ t :: ofChars more := by
  rw [ofChars, scan_append (scan_bracket h more)]
  exact consWord_append _ _ _

theorem ofBracket?_opener (b : Bracket) : ofBracket? b.opener = some (.opening b) := by
  cases b <;> rfl

theorem ofBracket?_closer (b : Bracket) : ofBracket? b.closer = some (.closing b) := by
  cases b <;> rfl

/-- The tokens between two brackets with a blank inside each of them. -/
theorem ofChars_between (b : Bracket) (cs : List Char) :
    ofChars (b.opener :: ' ' :: (cs ++ [' ', b.closer])) =
      .opening b :: (ofChars cs ++ [.closing b]) := by
  rw [ofChars_bracket (ofBracket?_opener b), ofChars_blank rfl, ofChars_append_blank rfl,
    ofChars_bracket (ofBracket?_closer b), ofChars_nil]

/-! ## Gaps -/

/-- Blanks, or nothing. -/
def Blanks (gap : List Char) : Prop := ∀ c ∈ gap, Text.isBlank c = true

instance : DecidablePred Blanks := fun gap =>
  decidable_of_iff (gap.all Text.isBlank = true) List.all_eq_true

theorem ofChars_blanks {gap : List Char} (h : Blanks gap) (cs : List Char) :
    ofChars (gap ++ cs) = ofChars cs := by
  induction gap with
  | nil => rfl
  | cons c gap ih =>
      rw [List.cons_append, ofChars_blank (h c List.mem_cons_self)]
      exact ih fun x hx => h x (List.mem_cons_of_mem c hx)

theorem ofChars_of_blanks {gap : List Char} (h : Blanks gap) : ofChars gap = [] := by
  have hgap := ofChars_blanks h []
  rwa [List.append_nil, ofChars_nil] at hgap

/-- Any blanks keep the tokens on their two sides apart. -/
theorem ofChars_append_gap {gap : List Char} (h : Blanks gap) (hne : gap ≠ [])
    (cs more : List Char) : ofChars (cs ++ (gap ++ more)) = ofChars cs ++ ofChars more := by
  obtain ⟨c, gap, rfl⟩ := List.exists_cons_of_ne_nil hne
  rw [List.cons_append, ofChars_append_blank (h c List.mem_cons_self),
    ofChars_blanks fun x hx => h x (List.mem_cons_of_mem c hx)]

theorem ofChars_append_blanks {gap : List Char} (h : Blanks gap) (cs : List Char) :
    ofChars (cs ++ gap) = ofChars cs := by
  by_cases hne : gap = []
  · rw [hne, List.append_nil]
  · have hgap := ofChars_append_gap h hne cs []
    rwa [List.append_nil, ofChars_nil, List.append_nil] at hgap

/-! ## Words -/

theorem scan_word {cs : List Char} (h : ∀ c ∈ cs, isWordChar c = true) : scan cs = (cs, []) := by
  induction cs with
  | nil => rfl
  | cons c cs ih =>
      rw [scan_wordChar (h c List.mem_cons_self), ih fun x hx => h x (List.mem_cons_of_mem c hx)]

theorem ofChars_word {cs : List Char} (h : IsWord cs) : ofChars cs = [.word cs] := by
  rw [ofChars, scan_word h.2]
  show consWord cs [] = _
  rw [consWord, if_neg]
  rw [List.isEmpty_iff]
  exact h.1

theorem consWord_isWord {run : List Char} {tokens : List Token}
    (hrun : ∀ c ∈ run, isWordChar c = true) (h : ∀ cs, Token.word cs ∈ tokens → IsWord cs) :
    ∀ cs, Token.word cs ∈ consWord run tokens → IsWord cs := by
  intro cs hcs
  rw [consWord] at hcs
  split at hcs
  · exact h cs hcs
  · next hempty =>
      rw [List.isEmpty_iff] at hempty
      rcases List.mem_cons.mp hcs with heq | hcs
      · obtain rfl := Token.word.inj heq
        exact ⟨hempty, hrun⟩
      · exact h cs hcs

theorem scan_isWord (text : List Char) : (∀ c ∈ (scan text).1, isWordChar c = true) ∧
    ∀ cs, Token.word cs ∈ (scan text).2 → IsWord cs := by
  induction text with
  | nil => exact ⟨fun c hc => absurd hc List.not_mem_nil, fun cs hcs => absurd hcs List.not_mem_nil⟩
  | cons c text ih =>
      have hwords : ∀ cs, Token.word cs ∈ ofChars text → IsWord cs := consWord_isWord ih.1 ih.2
      rcases char_cases c with ⟨t, ht⟩ | hc | hc
      · rw [scan_bracket ht]
        refine ⟨fun x hx => absurd hx List.not_mem_nil, fun cs hcs => ?_⟩
        rcases List.mem_cons.mp hcs with rfl | hcs
        · unfold ofBracket? at ht
          split at ht <;> cases ht
        · exact hwords cs hcs
      · rw [scan_blank hc]
        exact ⟨fun x hx => absurd hx List.not_mem_nil, hwords⟩
      · rw [scan_wordChar hc]
        refine ⟨fun x hx => ?_, ih.2⟩
        rcases List.mem_cons.mp hx with rfl | hx
        · exact hc
        · exact ih.1 x hx

/-- Every word of a text is a word by itself. -/
theorem isWord_of_mem_ofChars {text cs : List Char} (h : Token.word cs ∈ ofChars text) :
    IsWord cs := by
  obtain ⟨hrun, hwords⟩ := scan_isWord text
  exact consWord_isWord hrun hwords cs h

end PushFitness.Token
