import PushFitness.Proofs.Program.Prefix
import PushFitness.Proofs.Program.Tokens

/-!
# The first token that cannot be read

The brackets that are open at some place of a text are those of the tokens in front of it:
`LeavesOpen` finds them by the grammar of balanced tokens and knows nothing of the reader. They
are all that the reader has to know there to take the next token or to refuse it
(`step_eq_error_iff`). So what is wrong with a text is said by one of its tokens, and by the
brackets that are open in front of it (`StopsAt`); if no token is at fault, it is said by the
brackets that are open at the end.

The reader looks at nothing behind the token that stops it, so a text that goes on behind it
has the same fault.
-/

namespace PushFitness

/-- The brackets that tokens leave open, the innermost one first. -/
inductive LeavesOpen : List Token → List Bracket → Prop
  | outside {tokens : List Token} (h : Balanced tokens) : LeavesOpen tokens []
  | inside {before inner : List Token} {bs : List Bracket} (h : LeavesOpen before bs)
      (b : Bracket) (hinner : Balanced inner) :
      LeavesOpen (before ++ .opening b :: inner) (b :: bs)

/-- A token that cannot be read while some brackets are open, and why. -/
inductive Misfit (bs : List Bracket) : Token → ReadError → Prop
  | closing {b : Bracket} (h : bs.head? ≠ some b) : Misfit bs (.closing b) (.unexpected b)
  | word {cs : List Char} {count : Nat} (h : IntegerWord cs count)
      (hmany : Text.maxIntegerDigits < count) : Misfit bs (.word cs) (.tooManyDigits ⟨count⟩)

/-- All tokens in front of a token can be read, and the token cannot. -/
def StopsAt (tokens before : List Token) (t : Token) (e : ReadError) : Prop :=
  ∃ behind bs, tokens = before ++ t :: behind ∧ ShortIntegers before ∧ LeavesOpen before bs ∧
    Misfit bs t e

/-- All tokens can be read, and a bracket is open at their end. -/
def EndsInside (tokens : List Token) (b : Bracket) : Prop :=
  ∃ bs, ShortIntegers tokens ∧ LeavesOpen tokens (b :: bs)

variable {tokens before : List Token} {bs : List Bracket} {t : Token} {e : ReadError}

/-! ## What the reader knows -/

/-- The brackets of the lists that a reading is in, the innermost one first. -/
def Reading.brackets (r : Reading) : List Bracket := r.openLists.map (·.bracket)

theorem Spells.shortIntegers {items : List Item} (h : Spells tokens items) :
    ShortIntegers tokens := by
  intro cs count hcs hword
  obtain ⟨atom, hatom⟩ := h.word_ok cs hcs
  refine Nat.le_of_not_lt fun hmany => ?_
  have herror : Item.ofWord cs = .error ⟨count⟩ := Item.ofWord_eq_error_iff.mpr ⟨hword, hmany⟩
  rw [hatom] at herror
  cases herror

theorem Completable.shortIntegers (h : Completable tokens) : ShortIntegers tokens := by
  obtain ⟨rest, items, hspells⟩ := h
  exact fun cs count hcs => hspells.shortIntegers cs count (List.mem_append_left rest hcs)

theorem ShortIntegers.of_append {more : List Token} (h : ShortIntegers (tokens ++ more)) :
    ShortIntegers tokens ∧ ShortIntegers more :=
  ⟨fun cs count hcs => h cs count (List.mem_append_left more hcs),
    fun cs count hcs => h cs count (List.mem_append_right tokens hcs)⟩

theorem Reached.leavesOpen {items : List Item} {os : List OpenList}
    (h : Reached tokens items os) : LeavesOpen tokens (os.map (·.bracket)) := by
  induction h with
  | outside h => exact .outside h.balanced
  | @inside _ _ o _ _ _ hinner ih => exact ih.inside o.bracket hinner.balanced

theorem LeavesOpen.read (h : LeavesOpen tokens bs) (hshort : ShortIntegers tokens) :
    ∃ r, tokens.foldlM Reading.step Reading.start = .ok r ∧ r.brackets = bs := by
  induction h with
  | outside h =>
      obtain ⟨items, hitems⟩ := h.spells hshort.word_ok
      exact ⟨_, hitems.read Reading.start, rfl⟩
  | @inside before inner bs _ b hinner ih =>
      obtain ⟨hbefore, hrest⟩ := hshort.of_append
      have hwords : ShortIntegers inner := fun cs count hcs =>
        hrest cs count (List.mem_cons_of_mem _ hcs)
      obtain ⟨r, hr, rfl⟩ := ih hbefore
      obtain ⟨items, hitems⟩ := hinner.spells hwords.word_ok
      refine ⟨⟨items.reverse ++ [], ⟨b, r.items⟩ :: r.openLists⟩, ?_, rfl⟩
      rw [List.foldlM_append, hr]
      show List.foldlM Reading.step r (.opening b :: inner) = _
      rw [List.foldlM_cons]
      exact hitems.read ⟨[], ⟨b, r.items⟩ :: r.openLists⟩

/-- What can be read is told from the tokens, and so are the brackets that are open then. -/
theorem exists_read_brackets_iff :
    (∃ r, tokens.foldlM Reading.step Reading.start = .ok r ∧ r.brackets = bs) ↔
      ShortIntegers tokens ∧ LeavesOpen tokens bs := by
  constructor
  · rintro ⟨r, hread, rfl⟩
    have hstart : Reached [] Reading.start.items Reading.start.openLists := .outside .nil
    exact ⟨(exists_read_iff.mp ⟨r, hread⟩).shortIntegers, (hstart.read hread).leavesOpen⟩
  · rintro ⟨hshort, hopen⟩
    exact hopen.read hshort

/-! ## What stops the reader -/

theorem step_eq_error_iff {r : Reading} : r.step t = .error e ↔ Misfit r.brackets t e := by
  cases t with
  | opening b =>
      constructor
      · intro h
        cases h
      · rintro ⟨⟩
  | closing b =>
      have hmisfit : Misfit r.brackets (.closing b) e ↔
          r.brackets.head? ≠ some b ∧ .unexpected b = e := by
        constructor
        · rintro ⟨h⟩
          exact ⟨h, rfl⟩
        · rintro ⟨h, rfl⟩
          exact .closing h
      obtain ⟨items, openLists⟩ := r
      rw [hmisfit]
      cases openLists with
      | nil => simp [Reading.step, Reading.brackets]
      | cons o os =>
          by_cases hb : o.bracket = b
          · simp [Reading.step, Reading.brackets, hb]
          · simp [Reading.step, Reading.brackets, hb]
  | word cs =>
      constructor
      · intro h
        rw [Reading.step] at h
        cases hatom : Item.ofWord cs with
        | ok atom => rw [hatom] at h; cases h
        | error d =>
            rw [hatom] at h
            obtain rfl := Except.error.inj h
            obtain ⟨hword, hmany⟩ := Item.ofWord_eq_error_iff.mp hatom
            exact .word hword hmany
      · rintro (_ | ⟨hword, hmany⟩)
        rw [Reading.step, Item.ofWord_eq_error_iff.mpr ⟨hword, hmany⟩]

theorem stopsAt_iff : StopsAt tokens before t e ↔ ∃ behind r, tokens = before ++ t :: behind ∧
    before.foldlM Reading.step Reading.start = .ok r ∧ r.step t = .error e := by
  constructor
  · rintro ⟨behind, bs, htokens, hshort, hopen, hmisfit⟩
    obtain ⟨r, hr, rfl⟩ := hopen.read hshort
    exact ⟨behind, r, htokens, hr, step_eq_error_iff.mpr hmisfit⟩
  · rintro ⟨behind, r, htokens, hr, ht⟩
    obtain ⟨hshort, hopen⟩ := exists_read_brackets_iff.mp ⟨r, hr, rfl⟩
    exact ⟨behind, r.brackets, htokens, hshort, hopen, step_eq_error_iff.mp ht⟩

theorem foldlM_eq_error_iff_stopsAt :
    tokens.foldlM Reading.step Reading.start = .error e ↔
      ∃ before t, StopsAt tokens before t e := by
  rw [foldlM_eq_error_iff]
  constructor
  · rintro ⟨before, t, behind, r, htokens, hr, ht⟩
    exact ⟨before, t, stopsAt_iff.mpr ⟨behind, r, htokens, hr, ht⟩⟩
  · rintro ⟨before, t, hstops⟩
    obtain ⟨behind, r, htokens, hr, ht⟩ := stopsAt_iff.mp hstops
    exact ⟨before, t, behind, r, htokens, hr, ht⟩

theorem StopsAt.eq_nil {more : List Token} {t' : Token} {e' : ReadError}
    (h : StopsAt tokens before t e) (h' : StopsAt tokens (before ++ more) t' e') : more = [] := by
  obtain ⟨behind, r, htokens, hr, ht⟩ := stopsAt_iff.mp h
  obtain ⟨behind', r', htokens', hr', -⟩ := stopsAt_iff.mp h'
  rw [htokens, List.append_assoc] at htokens'
  cases more with
  | nil => rfl
  | cons t₀ more =>
      obtain ⟨rfl, -⟩ := List.cons.inj (List.append_cancel_left htokens')
      have hfails := foldlM_eq_error_iff.mpr ⟨before, t, more, r, rfl, hr, ht⟩
      rw [hr'] at hfails
      cases hfails

/-- No text goes wrong in two places, since what is in front of the second can be read. -/
theorem StopsAt.unique {before' : List Token} {t' : Token} {e' : ReadError}
    (h : StopsAt tokens before t e) (h' : StopsAt tokens before' t' e') :
    before' = before ∧ t' = t ∧ e' = e := by
  have hsame : before' = before := by
    obtain ⟨behind, _, htokens, -⟩ := stopsAt_iff.mp h
    obtain ⟨behind', _, htokens', -⟩ := stopsAt_iff.mp h'
    rcases List.append_eq_append_iff.mp (htokens.symm.trans htokens') with
      ⟨more, rfl, -⟩ | ⟨more, rfl, -⟩
    · rw [h.eq_nil h', List.append_nil]
    · rw [h'.eq_nil h, List.append_nil]
  subst hsame
  obtain ⟨behind, r, htokens, hr, ht⟩ := stopsAt_iff.mp h
  obtain ⟨behind', r', htokens', hr', ht'⟩ := stopsAt_iff.mp h'
  rw [htokens] at htokens'
  obtain ⟨rfl, -⟩ := List.cons.inj (List.append_cancel_left htokens')
  rw [hr] at hr'
  obtain rfl := Except.ok.inj hr'
  rw [ht] at ht'
  exact ⟨rfl, rfl, (Except.error.inj ht').symm⟩

theorem readItems_eq_error_iff : readItems tokens = .error e ↔
    (∃ before t, StopsAt tokens before t e) ∨ ∃ b, EndsInside tokens b ∧ e = .unclosed b := by
  rw [← foldlM_eq_error_iff_stopsAt, readItems]
  cases hread : tokens.foldlM Reading.step Reading.start with
  | error e' =>
      have hends : ∀ b, ¬ EndsInside tokens b := by
        rintro b ⟨bs, hshort, hopen⟩
        obtain ⟨r, hr, -⟩ := hopen.read hshort
        rw [hread] at hr
        cases hr
      simp [Except.bind, hends]
  | ok r =>
      have hends : ∀ b, EndsInside tokens b ↔ r.brackets.head? = some b := by
        intro b
        constructor
        · rintro ⟨bs, hshort, hopen⟩
          obtain ⟨r', hr', hbs⟩ := hopen.read hshort
          rw [hread] at hr'
          obtain rfl := Except.ok.inj hr'
          rw [hbs, List.head?_cons]
        · intro h
          obtain ⟨bs, hbs⟩ := List.head?_eq_some_iff.mp h
          exact ⟨bs, exists_read_brackets_iff.mp ⟨r, hread, hbs⟩⟩
      simp only [hends]
      obtain ⟨items, openLists⟩ := r
      cases openLists with
      | nil => simp [Except.bind, Reading.finish, Reading.brackets]
      | cons o os => simp [Except.bind, Reading.finish, Reading.brackets, eq_comm]

/-! ## Texts -/

/-- A token that stops the reader stops it in every text that goes on behind it. -/
theorem StopsAt.append (h : StopsAt tokens before t e) (more : List Token) :
    StopsAt (tokens ++ more) before t e := by
  obtain ⟨behind, bs, rfl, hread⟩ := h
  exact ⟨behind ++ more, bs, by rw [List.append_assoc, List.cons_append], hread⟩

theorem ofText_append_blank (text : String) {c : Char} (h : Text.isBlank c = true)
    (more : List Char) : Token.ofText (text ++ String.ofList (c :: more)) =
      Token.ofText text ++ Token.ofChars more := by
  rw [Token.ofText, String.toList_append, String.toList_ofList, Token.ofChars_append_blank h]
  rfl

/-- A text is no program if and only if one of its tokens cannot be read, or if all of them can
and a bracket is open at the end; the innermost one is reported then. There is at most one
token that stops the reading. It is the closing bracket that is reported, with the whole text,
or an integer that is too long, and it stops the reading of all texts that go on behind a
blank. -/
theorem reading_stops_at_first_fault (text : String) :
    (∀ e, Program.ofText text = .error e ↔
      (∃ before t, StopsAt (Token.ofText text) before t e) ∨
        ∃ b, EndsInside (Token.ofText text) b ∧ e = .unclosed b) ∧
    (∀ before t e, StopsAt (Token.ofText text) before t e →
      (∀ before' t' e', StopsAt (Token.ofText text) before' t' e' →
        before' = before ∧ t' = t ∧ e' = e) ∧
      (∀ b, t = .closing b → e.text? text = some text ∧ e.message text =
        "Unexpected " ++ Text.quoted t.text ++ " in program text: " ++ Text.quoted text) ∧
      (∀ cs, t = .word cs → e.text? text = none) ∧
      ∀ c more, Text.isBlank c = true →
        StopsAt (Token.ofText (text ++ String.ofList (c :: more))) before t e ∧
        Program.ofText (text ++ String.ofList (c :: more)) = .error e) ∧
    ∀ b, (ReadError.unclosed b).text? text = some text ∧ ReadError.message text (.unclosed b) =
      "Unclosed " ++ Text.quoted (Token.opening b).text ++ " in program text: "
        ++ Text.quoted text := by
  refine ⟨fun e => Program.ofText_eq_error_iff.trans readItems_eq_error_iff, ?_,
    fun b => ⟨rfl, rfl⟩⟩
  intro before t e hstops
  refine ⟨fun _ _ _ => hstops.unique, ?_, ?_, fun c more hc => ?_⟩
  · rintro b rfl
    obtain ⟨_, _, _, _, _, ⟨_⟩⟩ := hstops
    exact ⟨rfl, rfl⟩
  · rintro cs rfl
    obtain ⟨_, _, _, _, _, ⟨_, _⟩⟩ := hstops
    rfl
  · have hmore := hstops.append (Token.ofChars more)
    rw [← ofText_append_blank text hc] at hmore
    exact ⟨hmore, Program.ofText_eq_error_iff.mpr (readItems_eq_error_iff.mpr (.inl ⟨_, _, hmore⟩))⟩

/-- Of a bracket that closes the wrong one, the one behind it that closes nothing and the open
ones, the first is reported, and closing them all behind a blank does not help. -/
theorem reading_stops_at_first_fault_mixed :
    StopsAt (Token.ofText "(1 [x) y] )")
      [.opening .round, .word ['1'], .opening .square, .word ['x']]
      (.closing .round) (.unexpected .round) ∧
    Program.ofText "(1 [x) y] )" = .error (.unexpected .round) ∧
    Program.ofText ("(1 [x) y] )" ++ String.ofList [' ', ']', ')']) =
      .error (.unexpected .round) := by
  have hstops : StopsAt (Token.ofText "(1 [x) y] )")
      [.opening .round, .word ['1'], .opening .square, .word ['x']]
      (.closing .round) (.unexpected .round) :=
    stopsAt_iff.mpr ⟨[.word ['y'], .closing .square, .closing .round], _, rfl, rfl, rfl⟩
  obtain ⟨hrejected, hstop, -⟩ := reading_stops_at_first_fault "(1 [x) y] )"
  exact ⟨hstops, (hrejected _).mpr (.inl ⟨_, _, hstops⟩),
    ((hstop _ _ _ hstops).2.2.2 ' ' [']', ')'] rfl).2⟩

end PushFitness
