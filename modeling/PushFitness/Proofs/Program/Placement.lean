import PushFitness.Proofs.Program.Tokens

/-!
# Where tokens stand in a text

A text is its tokens with blanks around them, and no two words of it touch: whoever reads a word
reads all of it. `Placed` says this of a text and any tokens, without the scanner. It holds of no
other tokens than those that are scanned (`placed_iff`), so nothing of a text is lost
(`Placed.flatMap_chars`) and nothing in it is read in two ways. In particular it does not matter
how wide the gaps are, and a blank between all tokens brings the same tokens back
(`ofChars_spaced`).
-/

namespace PushFitness

namespace Token

/-- What can be a token of a text: every bracket, and a word that is one. -/
def Proper : Token → Prop
  | opening _ => True
  | closing _ => True
  | word cs => IsWord cs

/-- A text that does not begin inside a word. -/
def BeginsApart (text : List Char) : Prop := ∀ c ∈ text.head?, isWordChar c = false

/-- What has to stand behind a token: a word goes on as far as it can. -/
def Ends : Token → List Char → Prop
  | opening _, _ => True
  | closing _, _ => True
  | word _, text => BeginsApart text

/-- A text that is made of tokens, one after the other, with nothing but blanks in between. -/
inductive Placed : List Token → List Char → Prop
  | nil {gap : List Char} (hgap : Blanks gap) : Placed [] gap
  | cons {gap text : List Char} {t : Token} {tokens : List Token} (hgap : Blanks gap)
      (ht : t.Proper) (hends : t.Ends text) (h : Placed tokens text) :
      Placed (t :: tokens) (gap ++ (t.chars ++ text))

theorem beginsApart_nil : BeginsApart [] := by simp [BeginsApart]

/-- Every token can end a text. -/
theorem ends_nil (t : Token) : t.Ends [] := by
  cases t with
  | opening b => trivial
  | closing b => trivial
  | word cs => exact beginsApart_nil

/-- A token that ends in front of more text ends wherever that is cut off. -/
theorem Ends.front {t : Token} {front back : List Char} (h : t.Ends (front ++ back)) :
    t.Ends front := by
  cases t with
  | opening b => trivial
  | closing b => trivial
  | word cs =>
      cases front with
      | nil => exact beginsApart_nil
      | cons c front => exact h

/-! ## Characters of tokens -/

theorem isWordChar_of_bracket {c : Char} {t : Token} (h : ofBracket? c = some t) :
    isWordChar c = false := by
  rw [isWordChar, h]
  rfl

theorem isWordChar_of_blank {c : Char} (h : Text.isBlank c = true) : isWordChar c = false := by
  rw [isWordChar, h, Bool.not_true, Bool.and_false]

theorem isBlank_of_isWordChar {c : Char} (h : isWordChar c = true) : Text.isBlank c = false := by
  rw [isWordChar, Bool.and_eq_true, Bool.not_eq_true'] at h
  exact h.2

theorem ofBracket?_eq_some_iff {c : Char} {t : Token} : ofBracket? c = some t ↔
    ∃ b : Bracket, c = b.opener ∧ t = .opening b ∨ c = b.closer ∧ t = .closing b := by
  constructor
  · intro h
    unfold ofBracket? at h
    split at h
    · exact ⟨.round, .inl ⟨rfl, (Option.some.inj h).symm⟩⟩
    · exact ⟨.round, .inr ⟨rfl, (Option.some.inj h).symm⟩⟩
    · exact ⟨.square, .inl ⟨rfl, (Option.some.inj h).symm⟩⟩
    · exact ⟨.square, .inr ⟨rfl, (Option.some.inj h).symm⟩⟩
    · cases h
  · rintro ⟨b, ⟨rfl, rfl⟩ | ⟨rfl, rfl⟩⟩
    · exact ofBracket?_opener b
    · exact ofBracket?_closer b

/-- A word character is no blank and no bracket. -/
theorem isWordChar_iff {c : Char} : isWordChar c = true ↔
    Text.isBlank c = false ∧ ∀ b : Bracket, c ≠ b.opener ∧ c ≠ b.closer := by
  constructor
  · intro h
    refine ⟨isBlank_of_isWordChar h, fun b => ⟨?_, ?_⟩⟩
    · rintro rfl
      rw [isWordChar_of_bracket (ofBracket?_opener b)] at h
      cases h
    · rintro rfl
      rw [isWordChar_of_bracket (ofBracket?_closer b)] at h
      cases h
  · rintro ⟨hblank, hbrackets⟩
    rcases char_cases c with ⟨t, ht⟩ | hc | hc
    · obtain ⟨b, ⟨hopener, -⟩ | ⟨hcloser, -⟩⟩ := ofBracket?_eq_some_iff.mp ht
      · exact absurd hopener (hbrackets b).1
      · exact absurd hcloser (hbrackets b).2
    · rw [hblank] at hc
      cases hc
    · exact hc

/-- The character of a bracket is the whole bracket. -/
theorem bracket_proper {c : Char} {t : Token} (h : ofBracket? c = some t) :
    t.chars = [c] ∧ t.Proper ∧ ∀ text, t.Ends text := by
  obtain ⟨b, ⟨rfl, rfl⟩ | ⟨rfl, rfl⟩⟩ := ofBracket?_eq_some_iff.mp h
  · exact ⟨rfl, trivial, fun _ => trivial⟩
  · exact ⟨rfl, trivial, fun _ => trivial⟩

/-- No blank is a part of a token. -/
theorem Proper.filter_chars {t : Token} (h : t.Proper) :
    t.chars.filter (fun c => !Text.isBlank c) = t.chars := by
  cases t with
  | opening b => cases b <;> rfl
  | closing b => cases b <;> rfl
  | word cs =>
      refine List.filter_eq_self.mpr fun c hc => ?_
      rw [isBlank_of_isWordChar (h.2 c hc)]
      rfl

/-! ## The scanner places its tokens -/

section Scan

variable {tokens : List Token} {text run : List Char}

theorem Placed.blank {c : Char} (hc : Text.isBlank c = true) (h : Placed tokens text) :
    Placed tokens (c :: text) := by
  cases h with
  | nil hgap => exact .nil (List.forall_mem_cons.mpr ⟨hc, hgap⟩)
  | cons hgap ht hends h => exact .cons (List.forall_mem_cons.mpr ⟨hc, hgap⟩) ht hends h

theorem Placed.bracket {c : Char} {t : Token} (hc : ofBracket? c = some t)
    (h : Placed tokens text) : Placed (t :: tokens) (c :: text) := by
  obtain ⟨hchars, ht, hends⟩ := bracket_proper hc
  have hplaced : Placed (t :: tokens) ([] ++ (t.chars ++ text)) :=
    .cons (List.forall_mem_nil _) ht (hends text) h
  rwa [hchars] at hplaced

theorem Placed.consWord (hrun : ∀ c ∈ run, isWordChar c = true) (hends : BeginsApart text)
    (h : Placed tokens text) : Placed (consWord run tokens) (run ++ text) := by
  rw [Token.consWord]
  split
  · next hempty =>
      obtain rfl := List.isEmpty_iff.mp hempty
      exact h
  · next hne =>
      have hword : IsWord run := ⟨fun hnil => hne (List.isEmpty_iff.mpr hnil), hrun⟩
      show Placed _ ([] ++ ((Token.word run).chars ++ text))
      exact .cons (List.forall_mem_nil _) hword hends h

/-- The scanner cuts a text behind the word that it begins with. -/
theorem scan_placed (text : List Char) : ∃ rest, text = (scan text).1 ++ rest ∧
    BeginsApart rest ∧ Placed (scan text).2 rest := by
  -- what a text begins with in front of a blank or a bracket is a whole word there
  induction text with
  | nil => exact ⟨[], rfl, beginsApart_nil, .nil (List.forall_mem_nil _)⟩
  | cons c text ih =>
      obtain ⟨rest, htext, hapart, hplaced⟩ := ih
      have hwhole : Placed (ofChars text) text := by
        have hword := hplaced.consWord (scan_isWord text).1 hapart
        rwa [← htext] at hword
      rcases char_cases c with ⟨t, ht⟩ | hc | hc
      · rw [scan_bracket ht]
        refine ⟨c :: text, rfl, fun d hd => ?_, hwhole.bracket ht⟩
        obtain rfl := Option.some.inj hd
        exact isWordChar_of_bracket ht
      · rw [scan_blank hc]
        refine ⟨c :: text, rfl, fun d hd => ?_, hwhole.blank hc⟩
        obtain rfl := Option.some.inj hd
        exact isWordChar_of_blank hc
      · rw [scan_wordChar hc]
        exact ⟨rest, congrArg (c :: ·) htext, hapart, hplaced⟩

theorem placed_ofChars (text : List Char) : Placed (ofChars text) text := by
  obtain ⟨rest, htext, hapart, hplaced⟩ := scan_placed text
  have hword := hplaced.consWord (scan_isWord text).1 hapart
  rwa [← htext] at hword

end Scan

/-! ## No other tokens can be placed -/

section Placed

variable {tokens : List Token} {text : List Char} {t : Token}

theorem ofChars_token (ht : t.Proper) (hends : t.Ends text) :
    ofChars (t.chars ++ text) = t :: ofChars text := by
  cases t with
  | opening b => exact ofChars_bracket (ofBracket?_opener b) text
  | closing b => exact ofChars_bracket (ofBracket?_closer b) text
  | word cs =>
      show ofChars (cs ++ text) = .word cs :: ofChars text
      cases text with
      | nil => rw [List.append_nil, ofChars_word ht, ofChars_nil]
      | cons c text =>
          have hc : isWordChar c = false := hends c rfl
          rcases char_cases c with ⟨u, hu⟩ | hblank | hword
          · rw [ofChars_append_bracket hu, ofChars_word ht, ofChars_bracket hu]
            rfl
          · rw [ofChars_append_blank hblank, ofChars_word ht, ofChars_blank hblank]
            rfl
          · rw [hc] at hword
            cases hword

theorem Placed.ofChars_eq (h : Placed tokens text) : ofChars text = tokens := by
  induction h with
  | nil hgap => exact ofChars_of_blanks hgap
  | cons hgap ht hends h ih => rw [ofChars_blanks hgap, ofChars_token ht hends, ih]

/-- The tokens of a text are those that can be placed in it. -/
theorem placed_iff : Placed tokens text ↔ ofChars text = tokens :=
  ⟨Placed.ofChars_eq, fun h => h ▸ placed_ofChars text⟩

/-- What lies between tokens is blank. -/
theorem Placed.flatMap_chars (h : Placed tokens text) :
    tokens.flatMap chars = text.filter fun c => !Text.isBlank c := by
  have hblanks {gap : List Char} (hgap : Blanks gap) :
      gap.filter (fun c => !Text.isBlank c) = [] := by
    refine List.filter_eq_nil_iff.mpr fun c hc => ?_
    rw [hgap c hc]
    exact Bool.false_ne_true
  induction h with
  | nil hgap => rw [hblanks hgap, List.flatMap_nil]
  | cons hgap ht hends h ih =>
      rw [List.filter_append, List.filter_append, hblanks hgap, ht.filter_chars, ← ih]
      rfl

theorem Placed.proper (h : Placed tokens text) : ∀ t ∈ tokens, t.Proper := by
  induction h with
  | nil hgap => exact List.forall_mem_nil _
  | cons hgap ht hends h ih => exact List.forall_mem_cons.mpr ⟨ht, ih⟩

/-- A text can be cut in front of any of its tokens. -/
theorem Placed.split {before after : List Token} (h : Placed (before ++ after) text) :
    ∃ front back, text = front ++ back ∧ Placed before front ∧ Placed after back := by
  induction before generalizing text with
  | nil => exact ⟨[], text, rfl, .nil (List.forall_mem_nil _), h⟩
  | cons t before ih =>
      rw [List.cons_append] at h
      cases h with
      | @cons gap rest _ _ hgap ht hends h =>
          obtain ⟨front, back, rfl, hfront, hback⟩ := ih h
          exact ⟨gap ++ (t.chars ++ front), back, by simp, .cons hgap ht hends.front hfront, hback⟩

/-- Two words of a text that follow each other have a blank between them. -/
theorem Placed.gap {before after : List Token} {u v : List Char}
    (h : Placed (before ++ .word u :: .word v :: after) text) :
    ∃ front gap back, text = front ++ (u ++ (gap ++ (v ++ back))) ∧ Blanks gap ∧ gap ≠ [] ∧
      ofChars front = before ∧ ofChars back = after := by
  obtain ⟨front, back, rfl, hfront, hback⟩ := h.split
  cases hback with
  | @cons margin _ _ _ hmargin hu hends hback =>
      cases hback with
      | @cons gap rest _ _ hgap hv _ hrest =>
          refine ⟨front ++ margin, gap, rest, by simp [chars], hgap, ?_, ?_, hrest.ofChars_eq⟩
          · rintro rfl
            obtain ⟨c, v, rfl⟩ := List.exists_cons_of_ne_nil hv.1
            have hc : isWordChar c = false := hends c rfl
            rw [hv.2 c List.mem_cons_self] at hc
            cases hc
          · rw [ofChars_append_blanks hmargin, hfront.ofChars_eq]

end Placed

/-! ## One blank between all tokens -/

/-- Tokens that are written with a blank between them are read back. -/
theorem ofChars_spaced {tokens : List Token} (h : ∀ t ∈ tokens, t.Proper) :
    ofChars ([' '].intercalate (tokens.map chars)) = tokens := by
  have hsingle {t : Token} (ht : t.Proper) : ofChars t.chars = [t] := by
    have htoken := ofChars_token ht t.ends_nil
    rwa [List.append_nil, ofChars_nil] at htoken
  induction tokens with
  | nil => rfl
  | cons t tokens ih =>
      obtain ⟨ht, hrest⟩ := List.forall_mem_cons.mp h
      cases tokens with
      | nil => simpa using hsingle ht
      | cons t' tokens =>
          have hcut : [' '].intercalate ((t :: t' :: tokens).map chars) =
              t.chars ++ ' ' :: [' '].intercalate ((t' :: tokens).map chars) := by
            simp [List.intercalate]
          rw [hcut, ofChars_append_blank rfl, hsingle ht, ih hrest]
          rfl

theorem ofText_spaced {tokens : List Token} (h : ∀ t ∈ tokens, t.Proper) :
    ofText (" ".intercalate (tokens.map text)) = tokens := by
  have hchars : (" ".intercalate (tokens.map text)).toList =
      [' '].intercalate (tokens.map chars) := by
    simp [text, Function.comp_def]
  rw [ofText, hchars, ofChars_spaced h]

end Token

/-- Scanning loses nothing but blanks, and what it finds is where it is found. Of a text by itself:
its tokens put together are the text without its blanks, each of them is a bracket or a run of
characters that are neither brackets nor blanks, they are the only tokens that can be placed in it,
two words that follow each other have a blank between them, and a single blank between all tokens
gives the same tokens again.

Of two texts: with a blank between them they have the tokens of the one and those of the other,
and with a bracket between them that bracket as well. -/
theorem tokens_split_losslessly :
    (∀ text : String,
      (String.join ((Token.ofText text).map Token.text)).toList =
          text.toList.filter (fun c => !Text.isBlank c) ∧
      (∀ t ∈ Token.ofText text, (∃ b, t = .opening b ∨ t = .closing b) ∨
        ∃ run, t = .word run ∧ run ≠ [] ∧
          ∀ c ∈ run, Text.isBlank c = false ∧ ∀ b : Bracket, c ≠ b.opener ∧ c ≠ b.closer) ∧
      (∀ tokens, Token.Placed tokens text.toList ↔ Token.ofText text = tokens) ∧
      (∀ before u v after, Token.ofText text = before ++ .word u :: .word v :: after →
        ∃ front gap back, text.toList = front ++ (u ++ (gap ++ (v ++ back))) ∧
          Token.Blanks gap ∧ gap ≠ [] ∧
          Token.ofChars front = before ∧ Token.ofChars back = after) ∧
      Token.ofText (" ".intercalate ((Token.ofText text).map Token.text)) = Token.ofText text) ∧
    ∀ front back : String,
      (∀ c, Text.isBlank c = true → Token.ofText (front ++ String.singleton c ++ back) =
        Token.ofText front ++ Token.ofText back) ∧
      ∀ b : Bracket,
        Token.ofText (front ++ String.singleton b.opener ++ back) =
          Token.ofText front ++ .opening b :: Token.ofText back ∧
        Token.ofText (front ++ String.singleton b.closer ++ back) =
          Token.ofText front ++ .closing b :: Token.ofText back := by
  constructor
  · intro text
    have hplaced : Token.Placed (Token.ofText text) text.toList := Token.placed_ofChars _
    refine ⟨?_, ?_, fun tokens => Token.placed_iff, ?_, Token.ofText_spaced hplaced.proper⟩
    · rw [← hplaced.flatMap_chars]
      simp [Token.text, List.flatMap_def, Function.comp_def]
    · intro t ht
      have hproper : t.Proper := hplaced.proper t ht
      cases t with
      | opening b => exact .inl ⟨b, .inl rfl⟩
      | closing b => exact .inl ⟨b, .inr rfl⟩
      | word run =>
          exact .inr ⟨run, rfl, hproper.1, fun c hc => Token.isWordChar_iff.mp (hproper.2 c hc)⟩
    · intro before u v after htokens
      rw [htokens] at hplaced
      exact hplaced.gap
  · intro front back
    have hbetween (c : Char) : (front ++ String.singleton c ++ back).toList =
        front.toList ++ c :: back.toList := by simp
    refine ⟨fun c hc => ?_, fun b => ⟨?_, ?_⟩⟩
    · rw [Token.ofText, hbetween, Token.ofChars_append_blank hc]
      rfl
    · rw [Token.ofText, hbetween, Token.ofChars_append_bracket (Token.ofBracket?_opener b)]
      rfl
    · rw [Token.ofText, hbetween, Token.ofChars_append_bracket (Token.ofBracket?_closer b)]
      rfl

/-- A word right behind a bracket and one behind an em space, which stands between two words. -/
theorem tokens_split_losslessly_tight :
    Token.ofText "(ab\u2003c)" = [.opening .round] ++ .word ['a', 'b'] :: .word ['c'] ::
        [.closing .round] ∧
      (∃ front gap back, "(ab\u2003c)".toList = front ++ (['a', 'b'] ++ (gap ++ (['c'] ++ back))) ∧
        Token.Blanks gap ∧ gap ≠ [] ∧
        Token.ofChars front = [.opening .round] ∧ Token.ofChars back = [.closing .round]) ∧
      Text.isBlank '\u2003' = true ∧
      Token.ofText ("(ab" ++ String.singleton '\u2003' ++ "c)") =
        Token.ofText "(ab" ++ Token.ofText "c)" := by
  have htokens : Token.ofText "(ab\u2003c)" = [.opening .round] ++ .word ['a', 'b'] ::
      .word ['c'] :: [.closing .round] := by
    decide +kernel
  have hblank : Text.isBlank '\u2003' = true := by decide
  have hgap := (tokens_split_losslessly.1 "(ab\u2003c)").2.2.2.1 _ _ _ _ htokens
  exact ⟨htokens, hgap, hblank, (tokens_split_losslessly.2 "(ab" "c)").1 _ hblank⟩

end PushFitness
