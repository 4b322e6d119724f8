import PushFitness.Proofs.Program.Reading

/-!
# How far a text is read

The reader stops at the first token it cannot take, so an integer that is too long is a fault
only if the reader gets to it. It gets past some tokens if and only if they can still become
items, whatever may stand behind them (`exists_read_iff`): what has been read may have lists
left open, and closing them from the innermost one outwards is one way to go on.

So whether a long integer is met can be told from the tokens in front of it, with
no word on how they are read (`readItems_eq_tooManyDigits_iff`).
-/

namespace PushFitness

variable {tokens : List Token}

/-- Tokens that some more tokens turn into the spelling of items. -/
def Completable (tokens : List Token) : Prop := ∃ rest items, Spells (tokens ++ rest) items

namespace Reached

/-- What has been read becomes items when the open lists are closed. -/
theorem completable {items : List Item} {os : List OpenList} (h : Reached tokens items os) :
    Completable tokens := by
  induction os generalizing tokens items with
  | nil =>
      cases h with
      | outside h => exact ⟨[], _, (List.append_nil tokens).symm ▸ h⟩
  | cons o os ih =>
      have hstep : Reading.step ⟨items, o :: os⟩ (.closing o.bracket) =
          .ok ⟨.list items.reverse :: o.before, os⟩ := by
        simp only [Reading.step, if_true]
      obtain ⟨rest, all, hspells⟩ := ih (step (r := ⟨items, o :: os⟩) h hstep)
      rw [List.append_assoc] at hspells
      exact ⟨_, all, hspells⟩

end Reached

theorem exists_read_iff :
    (∃ r, tokens.foldlM Reading.step Reading.start = .ok r) ↔ Completable tokens := by
  constructor
  · rintro ⟨r, hread⟩
    have hstart : Reached [] Reading.start.items Reading.start.openLists := .outside .nil
    exact (hstart.read hread).completable
  · rintro ⟨rest, items, hspells⟩
    have hall := hspells.read Reading.start
    rw [List.foldlM_append] at hall
    cases hread : tokens.foldlM Reading.step Reading.start with
    | ok r => exact ⟨r, rfl⟩
    | error e =>
        rw [hread] at hall
        cases hall

/-- A computation over a list fails at one of its elements, after all before it went well. -/
theorem foldlM_eq_error_iff {α β ε : Type} {f : β → α → Except ε β} {xs : List α} {start : β}
    {e : ε} : xs.foldlM f start = .error e ↔ ∃ before x behind r,
      xs = before ++ x :: behind ∧ before.foldlM f start = .ok r ∧ f r x = .error e := by
  constructor
  · intro h
    induction xs generalizing start with
    | nil => cases h
    | cons x xs ih =>
        rw [List.foldlM_cons] at h
        cases hx : f start x with
        | error e' =>
            rw [hx] at h
            obtain rfl := Except.error.inj h
            exact ⟨[], x, xs, start, rfl, rfl, hx⟩
        | ok next =>
            rw [hx] at h
            obtain ⟨before, y, behind, r, rfl, hbefore, hy⟩ := ih h
            refine ⟨x :: before, y, behind, r, rfl, ?_, hy⟩
            rw [List.foldlM_cons, hx]
            exact hbefore
  · rintro ⟨before, x, behind, r, rfl, hbefore, hx⟩
    rw [List.foldlM_append, hbefore]
    show List.foldlM f r (x :: behind) = _
    rw [List.foldlM_cons, hx]
    rfl

/-- The reader stops at an integer that is too long if and only if the tokens in front of it
can still become items. -/
theorem readItems_eq_tooManyDigits_iff {e : TooManyDigits} :
    readItems tokens = .error (.tooManyDigits e) ↔ ∃ before cs behind,
      tokens = before ++ .word cs :: behind ∧ IntegerWord cs e.count ∧
      Text.maxIntegerDigits < e.count ∧ Completable before := by
  have hfinish : readItems tokens = .error (.tooManyDigits e) ↔
      tokens.foldlM Reading.step Reading.start = .error (.tooManyDigits e) := by
    rw [readItems]
    cases tokens.foldlM Reading.step Reading.start with
    | error e' => simp [Except.bind]
    | ok r =>
        obtain ⟨items, openLists⟩ := r
        cases openLists <;> simp [Except.bind, Reading.finish]
  rw [hfinish, foldlM_eq_error_iff]
  constructor
  · rintro ⟨before, t, behind, r, rfl, hbefore, ht⟩
    obtain ⟨cs, rfl, hcs⟩ := Reading.step_eq_tooManyDigits ht
    obtain ⟨hword, hmany⟩ := Item.ofWord_eq_error_iff.mp hcs
    exact ⟨before, cs, behind, rfl, hword, hmany, exists_read_iff.mp ⟨r, hbefore⟩⟩
  · rintro ⟨before, cs, behind, rfl, hword, hmany, hbefore⟩
    obtain ⟨r, hr⟩ := exists_read_iff.mpr hbefore
    refine ⟨before, .word cs, behind, r, rfl, hr, ?_⟩
    rw [Reading.step, Item.ofWord_eq_error_iff.mpr ⟨hword, hmany⟩]

end PushFitness
