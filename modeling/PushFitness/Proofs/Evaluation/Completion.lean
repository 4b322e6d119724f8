import PushFitness.Proofs.Evaluation.LeftToRight
import PushFitness.Proofs.Evaluation.Limits

/-!
# Rows of pending items that are worked off

An instruction on the exec stack takes items off it and puts others there, and says nothing of
the time when these will have been executed. What can be said of such an instruction is
how long it takes until the items that it was given are gone, and what the other stacks hold
then. This is `Completes`, a statement about a row of items in front of any others. The
others are a parameter: the steps are the same whatever they are, and until the last step
something of the row is still in front of them. So the instruction cannot have taken one of
them, or have made a copy of one.

Rows that are worked off one behind the other are worked off together (`Completes.trans`), and
one executed item may put a new row in its place (`Completes.cons`). A neutral item is worked
off in as many steps as it has points (`completes_neutral`), and leaves what its leaves
leave when they are executed from left to right (`executeAll_leaves`).
-/

namespace PushFitness.Stacks

variable {maxPoints : Int} {s t u : Stacks} {item : Item} {row row' items : List Item} {m n : Nat}

theorem next_withPending_cons {exec : List Item}
    (h : (s.withPending exec).execute maxPoints item = .ok t) :
    (s.withPending (item :: exec)).next maxPoints = t :=
  next_of_ok (s := s.withPending (item :: exec)) rfl h

theorem run_withPending_cons {exec : List Item}
    (h : (s.withPending exec).execute maxPoints item = .ok t) (limit : Nat) :
    (s.withPending (item :: exec)).run maxPoints (limit + 1) =
      { t.run maxPoints limit with steps := (t.run maxPoints limit).steps + 1 } :=
  run_succ_of_ok (s := s.withPending (item :: exec)) rfl h limit

/-- A row of pending items is worked off in `n` steps and leaves the stacks `t`, whatever is
pending behind it. Before the last step something of the row is pending, and neither that nor
the other stacks depend on the items behind. -/
structure Completes (maxPoints : Int) (s : Stacks) (row : List Item) (n : Nat) (t : Stacks) :
    Prop where
  run : ∀ exec, (s.withPending (row ++ exec)).run maxPoints n = ⟨t.withPending exec, n, none⟩
  way : ∀ k < n, ∃ (u : Stacks) (left : List Item), left ≠ [] ∧ ∀ exec,
    (s.withPending (row ++ exec)).after maxPoints k = u.withPending (left ++ exec)

namespace Completes

theorem after (h : Completes maxPoints s row n t) (exec : List Item) :
    (s.withPending (row ++ exec)).after maxPoints n = t.withPending exec :=
  after_of_run (h.run exec)

theorem input (h : Completes maxPoints s row n t) (hin : ∀ i ∈ s.input, i.IsNumber) :
    t.input = s.input := by
  have hsame := after_input (s := s.withPending (row ++ [])) maxPoints hin n
  rw [h.after []] at hsame
  exact hsame

theorem nil : Completes maxPoints s [] 0 s where
  run _ := rfl
  way k hk := absurd hk (Nat.not_lt_zero k)

/-- One row behind the other. -/
theorem trans (h : Completes maxPoints s row m t) (h' : Completes maxPoints t row' n u) :
    Completes maxPoints s (row ++ row') (m + n) u where
  run exec := by
    have hfirst := h.run (row' ++ exec)
    rw [List.append_assoc, run_add_of_none (by rw [hfirst]), hfirst, h'.run exec]
  way k hk := by
    -- as long as the first row is not gone, the second is a part of what is pending behind it
    rcases Nat.lt_or_ge k m with hless | hmore
    · obtain ⟨v, left, hleft, hafter⟩ := h.way k hless
      refine ⟨v, left ++ row', List.append_ne_nil_of_left_ne_nil hleft row', fun exec => ?_⟩
      rw [List.append_assoc, hafter, List.append_assoc]
    · obtain ⟨j, rfl⟩ := Nat.exists_eq_add_of_le hmore
      obtain ⟨v, left, hleft, hafter⟩ := h'.way j (by omega)
      refine ⟨v, left, hleft, fun exec => ?_⟩
      rw [List.append_assoc, after_add, h.after, hafter]

/-- The first item of a row, which puts others in its place and changes the stacks. -/
theorem cons (hstep : ∀ exec, (s.withPending (items ++ exec)).execute maxPoints item =
      .ok (u.withPending (row ++ exec)))
    (h : Completes maxPoints u row n t) : Completes maxPoints s (item :: items) (n + 1) t where
  run exec := by
    rw [List.cons_append, run_withPending_cons (hstep exec), h.run exec]
  way k hk := by
    cases k with
    | zero => exact ⟨s, item :: items, List.cons_ne_nil item items, fun _ => rfl⟩
    | succ k =>
        obtain ⟨v, left, hleft, hafter⟩ := h.way k (by omega)
        refine ⟨v, left, hleft, fun exec => ?_⟩
        rw [List.cons_append, after_succ, next_withPending_cons (hstep exec), hafter]

end Completes

/-! ## Neutral items -/

/-- The stacks after an item was run: put in front of what is pending, for as many steps as it
has points. -/
def ran (maxPoints : Int) (s : Stacks) (item : Item) : Stacks :=
  (run maxPoints item.size { s with exec := item :: s.exec }).state

theorem completes_leaves (maxPoints : Int) (hin : ∀ i ∈ s.input, i.IsNumber)
    (hitem : ∀ leaf ∈ item.leaves, leaf.Neutral) :
    ∃ t, s.executeAll maxPoints item.leaves = .ok t ∧ t.exec = s.exec ∧
      Completes maxPoints s [item] item.size t := by
  obtain ⟨t, hmeaning, hexec, hrun, hway⟩ :=
    run_neutral maxPoints [item] (by rw [Item.leavesOf_single]; exact hitem) hin
  rw [Item.leavesOf_single] at hmeaning
  rw [Item.sizes_single] at hrun hway
  refine ⟨t, hmeaning, hexec, hrun, fun k hk => ?_⟩
  obtain ⟨v, left, hend, hafter⟩ := hway k (Nat.le_of_lt hk)
  exact ⟨v, left, fun hnil => Nat.ne_of_lt hk (hend hnil), hafter⟩

theorem ran_eq_of_completes (hexec : t.exec = s.exec)
    (h : Completes maxPoints s [item] item.size t) : s.ran maxPoints item = t := by
  have hrun : run maxPoints item.size { s with exec := item :: s.exec } = _ := h.run s.exec
  rw [ran, hrun, ← hexec]
  rfl

/-- To run a neutral item is to execute its leaves from left to right. -/
theorem executeAll_leaves (maxPoints : Int) (hin : ∀ i ∈ s.input, i.IsNumber)
    (hitem : ∀ leaf ∈ item.leaves, leaf.Neutral) :
    s.executeAll maxPoints item.leaves = .ok (s.ran maxPoints item) := by
  obtain ⟨t, hmeaning, hexec, hcompletes⟩ := completes_leaves maxPoints hin hitem
  rw [ran_eq_of_completes hexec hcompletes, hmeaning]

theorem completes_neutral (hin : ∀ i ∈ s.input, i.IsNumber)
    (hitem : ∀ leaf ∈ item.leaves, leaf.Neutral) :
    Completes maxPoints s [item] item.size (s.ran maxPoints item) := by
  obtain ⟨t, -, hexec, hcompletes⟩ := completes_leaves maxPoints hin hitem
  rw [ran_eq_of_completes hexec hcompletes]
  exact hcompletes

theorem ran_input (hin : ∀ i ∈ s.input, i.IsNumber) (hitem : ∀ leaf ∈ item.leaves, leaf.Neutral) :
    (s.ran maxPoints item).input = s.input :=
  (completes_neutral hin hitem).input hin

/-- A row of neutral items is run item by item. -/
theorem completes_row (hin : ∀ i ∈ s.input, i.IsNumber)
    (hitems : ∀ item ∈ items, ∀ leaf ∈ item.leaves, leaf.Neutral) :
    Completes maxPoints s items (Item.sizes items) (items.foldl (ran maxPoints) s) := by
  induction items generalizing s with
  | nil =>
      rw [Item.sizes_nil]
      exact .nil
  | cons item items ih =>
      obtain ⟨hitem, hrest⟩ := List.forall_mem_cons.mp hitems
      have hlater := ih (s := s.ran maxPoints item) (by rw [ran_input hin hitem]; exact hin) hrest
      rw [Item.sizes_cons]
      exact (completes_neutral hin hitem).trans hlater

end PushFitness.Stacks
