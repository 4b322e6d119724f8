import PushFitness.Program.Reader
import PushFitness.Proofs.Program.Words

/-!
# The grammar of programs

A sequence of items is spelled by the words of its atoms, and by the items of its lists between
two brackets of one style (`Spells`). The reader goes over the tokens with a stack of open
lists and never looks back; `readItems_eq_ok_iff` says that it accepts what the grammar
spells and nothing else, and that it returns the items that are spelled.

One half is an induction over the grammar: reading what is spelled adds the items to those in
front and leaves the open lists alone. For the other half the reading has to be described
while lists are open. `Reached` says what the tokens so far are: for every open list the
spelling of the items in front of it and its bracket, and then the spelling of the items
in the innermost one.
-/

namespace PushFitness

/-! ## The grammar -/

/-- A sequence of words and lists in which every list is closed by a bracket of its own style. -/
inductive Balanced : List Token → Prop
  | nil : Balanced []
  | word (cs : List Char) {tokens : List Token} (h : Balanced tokens) :
      Balanced (.word cs :: tokens)
  | list (b : Bracket) {inner tokens : List Token} (hinner : Balanced inner)
      (h : Balanced tokens) : Balanced (.opening b :: (inner ++ .closing b :: tokens))

/-- The tokens spell the items. -/
inductive Spells : List Token → List Item → Prop
  | nil : Spells [] []
  | word {cs : List Char} {atom : Item} (hatom : Item.ofWord cs = .ok atom)
      {tokens : List Token} {items : List Item} (h : Spells tokens items) :
      Spells (.word cs :: tokens) (atom :: items)
  | list (b : Bracket) {inner : List Token} {xs : List Item} (hinner : Spells inner xs)
      {tokens : List Token} {items : List Item} (h : Spells tokens items) :
      Spells (.opening b :: (inner ++ .closing b :: tokens)) (.list xs :: items)

namespace Spells

variable {tokens inner : List Token} {items xs : List Item}

theorem balanced (h : Spells tokens items) : Balanced tokens := by
  induction h with
  | nil => exact .nil
  | word _ _ ih => exact .word _ ih
  | list b _ _ ihinner ih => exact .list b ihinner ih

/-- The words of what is spelled are atoms. -/
theorem word_ok (h : Spells tokens items) :
    ∀ cs, Token.word cs ∈ tokens → ∃ atom, Item.ofWord cs = .ok atom := by
  induction h with
  | nil => exact fun cs hcs => absurd hcs List.not_mem_nil
  | word hatom _ ih =>
      intro cs hcs
      rcases List.mem_cons.mp hcs with heq | hcs
      · obtain rfl := Token.word.inj heq
        exact ⟨_, hatom⟩
      · exact ih cs hcs
  | list b _ _ ihinner ih =>
      intro cs hcs
      simp only [List.mem_cons, List.mem_append, reduceCtorEq, false_or] at hcs
      rcases hcs with hcs | hcs
      · exact ihinner cs hcs
      · exact ih cs hcs

theorem append {more : List Token} {ys : List Item} (h : Spells tokens items)
    (hmore : Spells more ys) : Spells (tokens ++ more) (items ++ ys) := by
  induction h with
  | nil => exact hmore
  | word hatom _ ih => exact .word hatom ih
  | list b hinner _ _ ih =>
      rw [List.cons_append, List.append_assoc]
      exact .list b hinner ih

theorem bracketed (b : Bracket) (h : Spells inner xs) :
    Spells (.opening b :: (inner ++ [.closing b])) [.list xs] := .list b h .nil

theorem of_list (h : Spells tokens [.list xs]) :
    ∃ b inner, tokens = .opening b :: (inner ++ [.closing b]) ∧ Spells inner xs := by
  cases h with
  | word hatom _ => exact absurd rfl (Item.ofWord_ne_list hatom xs)
  | list b hinner hrest =>
      cases hrest with
      | nil => exact ⟨b, _, rfl, hinner⟩

end Spells

theorem Balanced.spells {tokens : List Token} (h : Balanced tokens)
    (hwords : ∀ cs, Token.word cs ∈ tokens → ∃ atom, Item.ofWord cs = .ok atom) :
    ∃ items, Spells tokens items := by
  induction h with
  | nil => exact ⟨[], .nil⟩
  | word cs _ ih =>
      obtain ⟨atom, hatom⟩ := hwords cs List.mem_cons_self
      obtain ⟨items, hitems⟩ := ih fun ds hds => hwords ds (List.mem_cons_of_mem _ hds)
      exact ⟨atom :: items, .word hatom hitems⟩
  | list b _ _ ihinner ih =>
      obtain ⟨xs, hxs⟩ := ihinner fun ds hds => hwords ds (by simp [hds])
      obtain ⟨items, hitems⟩ := ih fun ds hds => hwords ds (by simp [hds])
      exact ⟨.list xs :: items, .list b hxs hitems⟩

/-! ## What is spelled is read -/

theorem Spells.read {tokens : List Token} {items : List Item} (h : Spells tokens items)
    (r : Reading) :
    tokens.foldlM Reading.step r = .ok ⟨items.reverse ++ r.items, r.openLists⟩ := by
  induction h generalizing r with
  | nil => rfl
  | @word cs atom hatom _ _ _ ih =>
      have hstep : r.step (.word cs) = .ok ⟨atom :: r.items, r.openLists⟩ := by
        rw [Reading.step, hatom]
      rw [List.foldlM_cons, hstep]
      show List.foldlM Reading.step _ _ = _
      rw [ih, List.reverse_cons, List.append_assoc]
      rfl
  | list b _ _ ihinner ih =>
      rw [List.foldlM_cons]
      show List.foldlM Reading.step ⟨[], ⟨b, r.items⟩ :: r.openLists⟩ _ = _
      rw [List.foldlM_append, ihinner]
      show List.foldlM Reading.step _ (.closing b :: _) = _
      rw [List.foldlM_cons]
      simp only [Reading.step, if_true, List.append_nil, List.reverse_reverse]
      show List.foldlM Reading.step _ _ = _
      rw [ih, List.reverse_cons, List.append_assoc]
      rfl

/-! ## What is read is spelled -/

/-- The tokens that lead to a reading with these items, the last one first, and these open
lists. -/
inductive Reached : List Token → List Item → List OpenList → Prop
  | outside {tokens : List Token} {items : List Item} (h : Spells tokens items.reverse) :
      Reached tokens items []
  | inside {tokens inner : List Token} {o : OpenList} {os : List OpenList} {items : List Item}
      (h : Reached tokens o.before os) (hinner : Spells inner items.reverse) :
      Reached (tokens ++ .opening o.bracket :: inner) items (o :: os)

namespace Reached

variable {tokens more : List Token} {items xs : List Item} {os : List OpenList}

theorem append (h : Reached tokens items os) (hmore : Spells more xs) :
    Reached (tokens ++ more) (xs.reverse ++ items) os := by
  cases h with
  | outside h =>
      refine .outside ?_
      rw [List.reverse_append, List.reverse_reverse]
      exact h.append hmore
  | inside h hinner =>
      rw [List.append_assoc, List.cons_append]
      refine .inside h ?_
      rw [List.reverse_append, List.reverse_reverse]
      exact hinner.append hmore

theorem step {r r' : Reading} {t : Token} (h : Reached tokens r.items r.openLists)
    (hstep : r.step t = .ok r') : Reached (tokens ++ [t]) r'.items r'.openLists := by
  cases t with
  | opening b =>
      obtain rfl := Except.ok.inj hstep
      show Reached (tokens ++ [.opening b]) [] (⟨b, r.items⟩ :: r.openLists)
      exact @Reached.inside tokens [] ⟨b, r.items⟩ r.openLists [] h .nil
  | word cs =>
      rw [Reading.step] at hstep
      cases hatom : Item.ofWord cs with
      | error e => rw [hatom] at hstep; cases hstep
      | ok atom =>
          rw [hatom] at hstep
          obtain rfl := Except.ok.inj hstep
          exact h.append (.word hatom .nil)
  | closing b =>
      obtain ⟨items, openLists⟩ := r
      cases h with
      | outside h => cases hstep
      | @inside before inner o os _ h hinner =>
          simp only [Reading.step] at hstep
          split at hstep
          · next hb =>
              obtain rfl := Except.ok.inj hstep
              subst hb
              rw [List.append_assoc, List.cons_append]
              exact h.append (hinner.bracketed o.bracket)
          · cases hstep

theorem read {r r' : Reading} (h : Reached tokens r.items r.openLists)
    (hread : more.foldlM Reading.step r = .ok r') :
    Reached (tokens ++ more) r'.items r'.openLists := by
  induction more generalizing tokens r with
  | nil =>
      obtain rfl := Except.ok.inj hread
      rw [List.append_nil]
      exact h
  | cons t more ih =>
      rw [List.foldlM_cons] at hread
      cases ht : r.step t with
      | error e => rw [ht] at hread; cases hread
      | ok next =>
          rw [ht] at hread
          rw [List.append_cons]
          exact ih (h.step ht) hread

end Reached

/-- The reader accepts what is spelled and returns the items. -/
theorem readItems_eq_ok_iff {tokens : List Token} {items : List Item} :
    readItems tokens = .ok items ↔ Spells tokens items := by
  constructor
  · intro h
    rw [readItems] at h
    cases hread : tokens.foldlM Reading.step Reading.start with
    | error e => rw [hread] at h; cases h
    | ok r =>
        rw [hread] at h
        have hstart : Reached [] Reading.start.items Reading.start.openLists := .outside .nil
        have hreached := hstart.read hread
        obtain ⟨found, openLists⟩ := r
        cases hreached with
        | inside => cases h
        | outside hspells =>
            obtain rfl := Except.ok.inj h
            exact hspells
  · intro h
    rw [readItems, h.read]
    show Except.ok (items.reverse ++ []).reverse = _
    rw [List.append_nil, List.reverse_reverse]

/-- The items that tokens spell are determined. -/
theorem Spells.unique {tokens : List Token} {items items' : List Item}
    (h : Spells tokens items) (h' : Spells tokens items') : items = items' := by
  have hread := readItems_eq_ok_iff.mpr h
  rw [readItems_eq_ok_iff.mpr h'] at hread
  exact (Except.ok.inj hread).symm

theorem Reading.step_eq_tooManyDigits {r : Reading} {t : Token} {e : TooManyDigits}
    (h : r.step t = .error (.tooManyDigits e)) :
    ∃ cs, t = .word cs ∧ Item.ofWord cs = .error e := by
  cases t with
  | opening b => cases h
  | closing b =>
      rw [step] at h
      split at h
      · cases h
      · split at h <;> cases h
  | word cs =>
      rw [step] at h
      cases hatom : Item.ofWord cs with
      | ok atom => rw [hatom] at h; cases h
      | error e' =>
          rw [hatom] at h
          obtain rfl := ReadError.tooManyDigits.inj (Except.error.inj h)
          exact ⟨cs, rfl, hatom⟩

theorem Reading.exists_word_of_tooManyDigits {tokens : List Token} {r : Reading}
    {e : TooManyDigits}
    (h : (tokens.foldlM step r).bind finish = .error (.tooManyDigits e)) :
    ∃ cs, Token.word cs ∈ tokens ∧ Item.ofWord cs = .error e := by
  induction tokens generalizing r with
  | nil =>
      obtain ⟨items, openLists⟩ := r
      cases openLists <;> cases h
  | cons t tokens ih =>
      rw [List.foldlM_cons] at h
      cases ht : r.step t with
      | ok next =>
          rw [ht] at h
          obtain ⟨cs, hcs, herror⟩ := ih h
          exact ⟨cs, List.mem_cons_of_mem t hcs, herror⟩
      | error e' =>
          rw [ht] at h
          obtain rfl := Except.error.inj h
          obtain ⟨cs, rfl, herror⟩ := step_eq_tooManyDigits ht
          exact ⟨cs, List.mem_cons_self, herror⟩

end PushFitness
