import PushFitness.Proofs.Evaluation.Calls
import PushFitness.Proofs.Machine.Effects
import PushFitness.Proofs.Machine.Slots
import PushFitness.Proofs.Program.Size

/-!
# How fast the contents of the stacks grow

Several instructions copy what is to be executed or wrap it into a list, and only one of
them looks at the cap on the points of a list. That the others do no harm is a matter of
two bounds that hold together. A list that is built is at most six points larger than
an item that was there, or it is within the cap; so the largest item grows by six points
a step (`ExecChange.size_le`). A step adds at most one such item to the exec stack; so the
points that are pending grow by at most the largest item a step (`ExecChange.sizes_le`).

The other stacks never build anything. What a step puts on one of them is one item at
most, and that item is a value or comes from a stack where the bound held before.
-/

namespace PushFitness

variable {maxPoints : Int} {s t : Stacks} {most total : Nat}

/-! ## One change of the exec stack -/

theorem Stacks.size_rangeItem (first last : Int) (body : Item) :
    (rangeItem first last body).size = body.size + 4 := by
  rw [rangeItem, Item.size_list]
  simp only [Item.sizes_cons, Item.sizes_nil, Item.size]
  omega

theorem Stacks.size_withoutIndex_le (body : Item) :
    (withoutIndex body).size ≤ body.size + 2 := by
  cases body with
  | list items =>
      rw [withoutIndex, Item.size_list, Item.size_list, Item.sizes_cons, Item.size]
      omega
  | int _ | float _ | bool _ | name _ | hole =>
      simp only [withoutIndex, Item.size, Item.sizes]
      omega

namespace ExecChange

variable {xs ys : List Item}

theorem size_body_le {body body' : Item} (h : body' = body ∨ body' = Stacks.withoutIndex body) :
    body'.size ≤ body.size + 2 := by
  rcases h with rfl | rfl
  · exact Nat.le_add_right _ 2
  · exact Stacks.size_withoutIndex_le body

/-- The largest item grows by at most six points. -/
theorem size_le (h : ExecChange maxPoints xs ys) (hxs : ∀ x ∈ xs, x.size ≤ most)
    (hcap : maxPoints ≤ most) : ∀ y ∈ ys, y.size ≤ most + 6 := by
  have hold : ∀ x ∈ xs, x.size ≤ most + 6 := fun x hx => Nat.le_add_right_of_le (hxs x hx)
  cases h with
  | part h => exact fun y hy => hold y (h.subset hy)
  | copy h => exact List.forall_mem_cons.mpr ⟨hold _ h, hold⟩
  | combine a b c rest h =>
      simp only [List.forall_mem_cons] at hold ⊢
      obtain ⟨ha, hb, hc, hrest⟩ := hold
      exact ⟨ha, hc, by omega, hrest⟩
  | again a rest =>
      have ha := hxs a List.mem_cons_self
      simp only [List.forall_mem_cons] at hold ⊢
      refine ⟨hold.1, ?_, hold.2⟩
      simp only [Item.sizes_cons, Item.sizes_nil, Item.size]
      omega
  | range first last body rest =>
      have hbody := hxs body List.mem_cons_self
      simp only [List.forall_mem_cons] at hold ⊢
      refine ⟨hold.1, ?_, hold.2⟩
      rw [Stacks.size_rangeItem]
      omega
  | @loop last body body' rest h =>
      have hbody := hxs body List.mem_cons_self
      have hbody' := size_body_le h
      simp only [List.forall_mem_cons] at hold ⊢
      refine ⟨?_, hold.2⟩
      rw [Stacks.size_rangeItem]
      omega

/-- The points of all items together grow by at most one item of the new size. -/
theorem sizes_le (h : ExecChange maxPoints xs ys) (hxs : ∀ x ∈ xs, x.size ≤ most)
    (hcap : maxPoints ≤ most) : Item.sizes ys ≤ Item.sizes xs + (most + 6) := by
  cases h with
  | part h =>
      have hle := Item.sizes_subperm h
      omega
  | copy h =>
      have hx := hxs _ h
      rw [Item.sizes_cons]
      omega
  | combine a b c rest h =>
      have hc := hxs c (by simp)
      rw [Item.size_list] at h
      simp only [Item.sizes_cons, Item.sizes_nil, Item.size_list] at h ⊢
      omega
  | again a rest =>
      have ha := hxs a List.mem_cons_self
      simp only [Item.sizes_cons, Item.sizes_nil, Item.size]
      omega
  | range first last body rest =>
      have hbody := hxs body List.mem_cons_self
      simp only [Item.sizes_cons, Stacks.size_rangeItem]
      omega
  | @loop last body body' rest h =>
      have hbody' := size_body_le h
      simp only [Item.sizes_cons, Stacks.size_rangeItem]
      omega

end ExecChange

/-! ## One step -/

namespace Stacks

/-- No item that can be a list has more points than `most`, and all that is pending has no
more than `total`. -/
structure Bounded (most total : Nat) (s : Stacks) : Prop where
  exec : ∀ item ∈ s.exec, item.size ≤ most
  code : ∀ item ∈ s.code, item.size ≤ most
  name : ∀ item ∈ s.name, item.size ≤ most
  pending : Item.sizes s.exec ≤ total

namespace Bounded

theorem mono {most' total' : Nat} (h : s.Bounded most total) (hmost : most ≤ most')
    (htotal : total ≤ total') : s.Bounded most' total' where
  exec item hitem := Nat.le_trans (h.exec item hitem) hmost
  code item hitem := Nat.le_trans (h.code item hitem) hmost
  name item hitem := Nat.le_trans (h.name item hitem) hmost
  pending := Nat.le_trans h.pending htotal

theorem pop {item : Item} {exec : List Item} (h : s.Bounded most total)
    (hs : s.exec = item :: exec) :
    { s with exec := exec }.Bounded most total ∧ item.size ≤ most ∧
      item.size + Item.sizes exec ≤ total := by
  have hexec := h.exec
  have hpending := h.pending
  rw [hs] at hexec hpending
  rw [Item.sizes_cons] at hpending
  refine ⟨⟨fun x hx => hexec x (List.mem_cons_of_mem item hx), h.code, h.name, ?_⟩,
    hexec item List.mem_cons_self, hpending⟩
  simp only
  omega

theorem of_changed (h : s.Bounded most total) (hchanged : s.Changed maxPoints t)
    (hcap : maxPoints ≤ most) : t.Bounded (most + 6) (total + (most + 6)) where
  exec := hchanged.exec.size_le h.exec hcap
  code := by
    have hcode := hchanged.code.forall_mem h.code fun item hitem =>
      hitem.elim (h.code item) (h.exec item)
    exact fun item hitem => Nat.le_add_right_of_le (hcode item hitem)
  name := by
    have hname := hchanged.name.forall_mem h.name h.name
    exact fun item hitem => Nat.le_add_right_of_le (hname item hitem)
  pending := Nat.le_trans (hchanged.exec.sizes_le h.exec hcap)
    (Nat.add_le_add_right h.pending _)

theorem next (h : s.Bounded most total) (hcap : maxPoints ≤ most) (hin : s.OneInput) :
    (s.next maxPoints).Bounded (most + 6) (total + (most + 6)) := by
  have hgrown : s.Bounded (most + 6) (total + (most + 6)) :=
    h.mono (Nat.le_add_right _ _) (Nat.le_add_right _ _)
  apply next_invariant
  case hnil => exact fun _ => hgrown
  case hdrop => exact fun item exec hs => (hgrown.pop hs).1
  case hlist =>
    intro items exec hs
    obtain ⟨hpopped, hmost, htotal⟩ := hgrown.pop hs
    rw [Item.size_list] at hmost htotal
    refine ⟨fun x hx => ?_, hpopped.code, hpopped.name, ?_⟩
    · rcases List.mem_append.mp hx with hx | hx
      · have hle := Item.size_le_sizes hx
        omega
      · exact hpopped.exec x hx
    · simp only [Item.sizes_append]
      omega
  case happly =>
    intro n i exec hs _
    have hchanged : Changed maxPoints { s with exec := exec } _ :=
      apply_changed (s := { s with exec := exec }) hin.number i
    exact (h.pop hs).1.of_changed hchanged hcap
  case hname =>
    intro n exec hs _
    have hpopped := (hgrown.pop hs).1
    refine { hpopped with name := List.forall_mem_cons.mpr ⟨?_, hpopped.name⟩ }
    rw [Item.size]
    omega
  case hint | hfloat | hbool =>
    intro _ exec hs
    have hpopped := (hgrown.pop hs).1
    exact { hpopped with }

end Bounded

/-- A step puts at most one item on every stack but the exec stack. -/
theorem Changed.length_items_le (h : s.Changed maxPoints t) (hone : s.input.length ≤ 1)
    {slot : Slot} (hslot : slot ≠ .exec) :
    (t.items slot).length ≤ (s.items slot).length + 1 := by
  cases slot with
  | integer => simp only [items, List.length_map]; exact (h.integer hone).length_le
  | float => simp only [items, List.length_map]; exact (h.float hone).length_le
  | boolean => simp only [items, List.length_map]; exact (h.boolean hone).length_le
  | exec => exact absurd rfl hslot
  | code => exact h.code.length_le
  | name => exact h.name.length_le
  | input => simp only [items, h.input]; exact Nat.le_succ _

theorem next_length_items_le (hin : s.OneInput) {slot : Slot} (hslot : slot ≠ .exec) :
    ((s.next maxPoints).items slot).length ≤ (s.items slot).length + 1 := by
  have hsame {exec : List Item} :
      ({ s with exec := exec }.items slot).length = (s.items slot).length := by
    cases slot with
    | exec => exact absurd rfl hslot
    | _ => rfl
  apply next_invariant (p := fun t => (t.items slot).length ≤ (s.items slot).length + 1)
  case hnil => exact fun _ => Nat.le_succ _
  case hdrop => exact fun item exec _ => hsame ▸ Nat.le_succ _
  case hlist => exact fun items exec _ => hsame ▸ Nat.le_succ _
  case happly =>
    intro n i exec hs _
    have hchanged : Changed maxPoints { s with exec := exec } _ :=
      apply_changed (s := { s with exec := exec }) hin.number i
    exact hsame ▸ hchanged.length_items_le hin.single hslot
  case hname | hint | hfloat | hbool =>
    intros
    cases slot with
    | exec => exact absurd rfl hslot
    | _ => simp only [items, List.map_cons, List.length_cons]; omega

/-! ## Any number of steps -/

theorem Bounded.after (h : s.Bounded most total) (hcap : maxPoints ≤ most) (hin : s.OneInput)
    (n : Nat) :
    (s.after maxPoints n).Bounded (most + 6 * n) (total + n * (most + 6 * n)) := by
  induction n with
  | zero => exact h.mono (Nat.le_add_right _ _) (Nat.le_add_right _ _)
  | succ n ih =>
      have hmul : n * (most + 6 * n) ≤ n * (most + 6 * (n + 1)) :=
        Nat.mul_le_mul_left n (by omega)
      refine (ih.next (by omega) (hin.after n)).mono (by omega) ?_
      rw [Nat.succ_mul n]
      omega

theorem Bounded.size_items_le (h : s.Bounded most total) (hpos : 1 ≤ most) (hin : s.OneInput)
    (slot : Slot) :
    ∀ item ∈ s.items slot, item.size ≤ most := by
  cases slot with
  | integer | float | boolean =>
      refine List.forall_mem_map.mpr fun x _ => ?_
      rw [Item.size]
      exact hpos
  | exec => exact h.exec
  | code => exact h.code
  | name => exact h.name
  | input =>
      intro item hitem
      have hnumber := hin.number item hitem
      cases item with
      | int _ | float _ => rw [Item.size]; exact hpos
      | bool _ | name _ | list _ | hole => exact hnumber.elim

end Stacks

namespace Evaluator

/-! ## Evaluations -/

theorem startStacks_bounded (v : Scalar) (program : Program) :
    (startStacks v program).Bounded program.size program.size := by
  have hsize : ∀ item ∈ [Item.list program], item.size ≤ program.size :=
    List.forall_mem_singleton.mpr (Nat.le_refl _)
  have hpending : Item.sizes [.list program] ≤ program.size := by
    rw [Item.sizes_cons, Item.sizes_nil]
    exact Nat.le_refl _
  cases v with
  | int _ | float _ => exact ⟨hsize, hsize, fun _ h => absurd h List.not_mem_nil, hpending⟩

theorem startStacks_length_items (v : Scalar) (program : Program) (slot : Slot) :
    ((startStacks v program).items slot).length ≤ 1 := by
  cases v <;> cases slot <;>
    simp [startStacks, inputStacks, Stacks.load, Stacks.items, Stacks.empty]

theorem stacksAfter_length_items_le {v : Scalar} {program : Program} {maxPoints : Int}
    {slot : Slot} (hslot : slot ≠ .exec) (n : Nat) :
    (((startStacks v program).after maxPoints n).items slot).length ≤ n + 1 := by
  induction n with
  | zero => exact startStacks_length_items v program slot
  | succ n ih =>
      refine Nat.le_trans ?_ (Nat.add_le_add_right ih 1)
      exact Stacks.next_length_items_le ((startStacks_oneInput v program).after n) hslot

/-- However a program is evaluated, after `n` steps no item has more points than the
larger of the program and the cap, and `6 * n`. The points of all pending items are within
`n` such items, every other stack grows by at most one item a step, and so the
points of a whole stack are bounded by a polynomial in the number of steps. A run leaves
what some number of steps within the limit leaves. -/
theorem contents_grow_slowly (t : ProblemType) (config : EvaluatorConfig) (calls : List Call)
    (program : Program) (input : Scalar) (loaded : Evaluator)
    (hload : ((new t config).afterCalls calls).load input = (loaded, .ok ())) (n : Nat) :
    (∀ slot, ∀ item ∈ (loaded.stacksAfter program n).items slot,
      item.size ≤ max program.size config.maxPoints + 6 * n) ∧
    Item.sizes (loaded.stacksAfter program n).exec ≤
      program.size + n * (max program.size config.maxPoints + 6 * n) ∧
    (∀ slot, slot ≠ .exec → ((loaded.stacksAfter program (n + 1)).items slot).length ≤
      ((loaded.stacksAfter program n).items slot).length + 1) ∧
    (∀ slot, Item.sizes ((loaded.stacksAfter program n).items slot) ≤
      (n + 1) * (max program.size config.maxPoints + 6 * n)) ∧
    ∃ k ≤ config.executionLimit, loaded.stacksAfter program k =
      (((new t config).afterCalls calls).run program input).evaluator.machine.state := by
  have halike := (new t config).afterCalls_alike calls
  obtain ⟨k, hk, hrun⟩ := run_state program hload
  rw [halike.config] at hk
  obtain ⟨v, -, rfl⟩ := load_eq_ok hload
  have hin := startStacks_oneInput v program
  have hcap : (new t config).machine.maxPoints ≤ (max program.size config.maxPoints : Nat) :=
    Int.ofNat_le.mpr (Nat.le_max_right _ _)
  have hpos : 1 ≤ program.size := Item.size_pos _
  have hbounded := ((startStacks_bounded v program).mono (Nat.le_max_left _ config.maxPoints)
    (Nat.le_refl _)).after hcap hin n
  -- loading has emptied the stacks, so nothing of the earlier calls is left to be bounded
  have hstacks (n : Nat) : stacksAfter { (new t config).afterCalls calls with machine :=
      { ((new t config).afterCalls calls).machine with state := inputStacks v } } program n =
      (startStacks v program).after (new t config).machine.maxPoints n := by
    rw [← halike.maxPoints]
    rfl
  simp only [hstacks] at hrun ⊢
  have hitems := hbounded.size_items_le (by omega) (hin.after n)
  refine ⟨hitems, hbounded.pending, fun slot hslot => ?_, fun slot => ?_, k, hk, hrun.symm⟩
  · exact Stacks.next_length_items_le (hin.after n) hslot
  · by_cases hslot : slot = .exec
    · rw [hslot]
      refine Nat.le_trans hbounded.pending ?_
      rw [Nat.succ_mul n]
      omega
    · refine Nat.le_trans (Item.sizes_le_mul (hitems slot)) (Nat.mul_le_mul_right _ ?_)
      exact stacksAfter_length_items_le hslot n

/-- A program that wraps and copies itself without an end. -/
def wrapping : Program := [.name "exec.y", .name "exec.y", .name "exec.dup"]

/-- An evaluator that could not load an input and was then cut off. -/
def cutOffBefore : Evaluator :=
  (new .integer .default).afterCalls [.load (.float .infinity), .run wrapping (.int 5)]

theorem contents_grow_slowly_wrapping :
    cutOffBefore.load (.int 7) = ((cutOffBefore.load (.int 7)).1, .ok ()) ∧
    (∀ slot, ∀ item ∈ ((cutOffBefore.load (.int 7)).1.stacksAfter wrapping 9).items slot,
      item.size ≤ 154) ∧
    Item.sizes ((cutOffBefore.load (.int 7)).1.stacksAfter wrapping 9).exec ≤ 4 + 9 * 154 := by
  have hv : cutOffBefore.problemType.loadable (.int 7) = .ok (.int 7) := by
    rw [cutOffBefore, ((new .integer .default).afterCalls_alike _).problemType]
    rfl
  have hload : cutOffBefore.load (.int 7) = ((cutOffBefore.load (.int 7)).1, .ok ()) := by
    rw [load_of_ok hv]
  obtain ⟨hitems, hpending, -⟩ := contents_grow_slowly .integer .default _ wrapping _ _ hload 9
  exact ⟨hload, hitems, hpending⟩

end Evaluator

end PushFitness
