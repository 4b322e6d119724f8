import PushFitness.Proofs.Machine.Pending
import PushFitness.Proofs.Machine.Stepping
import PushFitness.Proofs.Program.Congruence

/-!
# Two machines in lockstep

Two machines whose stacks of programs hold congruent items, and whose other stacks are
equal, take the same steps: they stop after the same number of them and for the same
reason, and are in step again after each one.

No instruction is looked at twice for that, once on each machine. Stacks are congruent if and
only if they reduce to the same stacks (`reduced_eq_iff`), so it is enough that reducing
the stacks before an instruction changes nothing of what they reduce to behind it
(`apply_reduced`). Moves do not look at items at all. What computes with values does not
look at programs. The few instructions that build code put their own names and numbers of
the integer stack into it, and what they ask of an item, its points and whether it is a
list, reducing keeps.
-/

namespace PushFitness.Stacks

variable {maxPoints : Int} {s t : Stacks}

/-- Stacks that differ in nothing a machine can see. -/
structure Congruent (s t : Stacks) : Prop where
  integer : s.integer = t.integer
  float : s.float = t.float
  boolean : s.boolean = t.boolean
  input : s.input = t.input
  exec : List.Forall₂ Item.Congruent s.exec t.exec
  code : List.Forall₂ Item.Congruent s.code t.code
  name : List.Forall₂ Item.Congruent s.name t.name

/-- The stacks that stand for all that are congruent to them. -/
def reduced (s : Stacks) : Stacks :=
  { s with
    exec := s.exec.map Item.reduced
    code := s.code.map Item.reduced
    name := s.name.map Item.reduced }

theorem reduced_eq_iff : s.reduced = t.reduced ↔ s.Congruent t := by
  simp only [reduced, Stacks.mk.injEq, Item.map_reduced_eq_iff]
  constructor
  · rintro ⟨hinteger, hfloat, hboolean, hexec, hcode, hname, hinput⟩
    exact ⟨hinteger, hfloat, hboolean, hinput, hexec, hcode, hname⟩
  · rintro ⟨hinteger, hfloat, hboolean, hinput, hexec, hcode, hname⟩
    exact ⟨hinteger, hfloat, hboolean, hexec, hcode, hname, hinput⟩

theorem reduced_reduced (s : Stacks) : s.reduced.reduced = s.reduced := by
  simp only [reduced, Item.map_reduced_map_reduced]

/-! ## Pushes and moves -/

theorem push_reduced (s : Stacks) (item : Item) :
    (s.reduced.push item).reduced = (s.push item).reduced := by
  cases item with
  | int _ | float _ | bool _ => simp only [push, reduced, Item.map_reduced_map_reduced]
  | name _ | list _ | hole =>
      simp only [push, reduced, List.map_cons, Item.map_reduced_map_reduced]

theorem pushAll_reduced (s : Stacks) (items : List Item) :
    (s.reduced.pushAll items).reduced = (s.pushAll items).reduced := by
  induction items generalizing s with
  | nil => exact reduced_reduced s
  | cons item items ih =>
      have hpushed := ih (s.reduced.push item)
      rw [push_reduced, ih (s.push item)] at hpushed
      exact hpushed.symm

theorem rearrange_reduced (s : Stacks) {move : {α : Type} → List α → List α}
    (hmove : ∀ {α β : Type} (f : α → β) (xs : List α), move (xs.map f) = (move xs).map f)
    (on : StackName) : s.reduced.rearrange move on = (s.rearrange move on).reduced := by
  cases on with
  | integer | float | boolean => rfl
  | exec | code | name => simp only [rearrange, reduced, hmove]

theorem depth_reduced (s : Stacks) (on : StackName) : s.reduced.depth on = s.depth on := by
  cases on with
  | integer | float | boolean => rfl
  | exec | code | name => exact List.length_map _

theorem moveAt_reduced (s : Stacks) (m : DepthMove) (on : StackName) :
    s.reduced.moveAt m on = (s.moveAt m on).reduced := by
  cases hs : s.integer with
  | nil => simp only [moveAt, reduced, hs]
  | cons d rest =>
      have hdepth := depth_reduced { s with integer := rest } on
      have hmoved := rearrange_reduced { s with integer := rest } (m.apply_map d) on
      rw [moveAt_of_cons hs, moveAt_of_cons (s := s.reduced) hs]
      show (if depth (reduced { s with integer := rest }) on = 0 then s.reduced
        else rearrange (reduced { s with integer := rest }) (m.apply d) on) = _
      rw [hdepth, hmoved]
      split
      · rfl
      · rfl

/-! ## Instructions -/

theorem reduced_rangeItem (first last : Int) (body : Item) :
    (rangeItem first last body.reduced).reduced = (rangeItem first last body).reduced := by
  simp only [rangeItem, Item.reduced_list, List.map_cons, Item.reduced_reduced]

theorem reduced_withoutIndex (body : Item) :
    (withoutIndex body.reduced).reduced = (withoutIndex body).reduced := by
  cases body with
  | list items => simp [withoutIndex]
  | int _ | name _ => simp [withoutIndex, Item.reduced, Int32.wrap_wrap]
  | float _ | bool _ | hole => simp only [Item.reduced]

theorem countedLoop_reduced (s : Stacks) {wrapBody : Item → Item}
    (hwrap : ∀ body, (wrapBody body.reduced).reduced = (wrapBody body).reduced) :
    (s.reduced.countedLoop wrapBody).reduced = (s.countedLoop wrapBody).reduced := by
  have hrange (last : Int) (body : Item) :
      (rangeItem 0 last (wrapBody body.reduced)).reduced =
        (rangeItem 0 last (wrapBody body)).reduced := by
    rw [← reduced_rangeItem, hwrap, reduced_rangeItem]
  rcases hints : s.integer with _ | ⟨count, ints⟩
  · simp [countedLoop, reduced, hints]
  rcases hexec : s.exec with _ | ⟨body, exec⟩
  · simp [countedLoop, reduced, hints, hexec]
  simp only [countedLoop, reduced, hints, hexec, List.map_cons]
  split
  · simp [hints, hexec]
  · simp [hrange]

theorem rangeLoop_reduced (s : Stacks) : s.reduced.rangeLoop.reduced = s.rangeLoop.reduced := by
  rcases hints : s.integer with _ | ⟨stop, _ | ⟨start, ints⟩⟩
  · simp [rangeLoop, reduced, hints]
  · simp [rangeLoop, reduced, hints]
  rcases hexec : s.exec with _ | ⟨body, exec⟩
  · simp [rangeLoop, reduced, hints, hexec]
  simp only [rangeLoop, reduced, hints, hexec, List.map_cons, Item.reduced_reduced]
  split
  · simp
  · simp [reduced_rangeItem]

theorem inputIndex_reduced (maxPoints : Int) (s : Stacks) :
    (s.reduced.apply maxPoints .inputIndex).reduced =
      (s.apply maxPoints .inputIndex).reduced := by
  rcases hinput : s.input with _ | ⟨x, inputs⟩
  · simp [apply, reduced, hinput]
  rcases hints : s.integer with _ | ⟨d, ints⟩
  · simp [apply, reduced, hinput, hints]
  simp only [apply, reduced, hinput, hints]
  split
  · next item hitem =>
      have hpush := push_reduced { s with integer := ints } item
      simp only [reduced, hinput] at hpush
      exact hpush
  · simp [hinput, hints]

theorem branch_reduced (maxPoints : Int) (s : Stacks) :
    (s.reduced.apply maxPoints .branch).reduced = (s.apply maxPoints .branch).reduced := by
  rcases hbooleans : s.boolean with _ | ⟨condition, booleans⟩
  · simp [apply, reduced, hbooleans]
  rcases hexec : s.exec with _ | ⟨a, _ | ⟨b, exec⟩⟩
  · simp [apply, reduced, hbooleans, hexec]
  · simp [apply, reduced, hbooleans, hexec]
  · cases condition <;> simp [apply, reduced, hbooleans, hexec]

/-- The cap of the S combinator is on points, and these are kept. -/
theorem combinatorS_reduced (maxPoints : Int) (s : Stacks) :
    (s.reduced.apply maxPoints .combinatorS).reduced =
      (s.apply maxPoints .combinatorS).reduced := by
  rcases h : s.exec with _ | ⟨a, _ | ⟨b, _ | ⟨c, exec⟩⟩⟩
  · simp [apply, reduced, h]
  · simp [apply, reduced, h]
  · simp [apply, reduced, h]
  have hpoints : (Item.list [b.reduced, c.reduced]).size = (Item.list [b, c]).size :=
    Item.size_reduced (.list [b, c])
  simp only [apply, reduced, h, List.map_cons, hpoints]
  split
  · simp
  · simp [h]

/-- Reducing the stacks before an instruction changes nothing of what they reduce to behind
it. -/
theorem apply_reduced (maxPoints : Int) (s : Stacks) (i : Instruction) :
    (s.reduced.apply maxPoints i).reduced = (s.apply maxPoints i).reduced := by
  cases i with
  | integerOp _ | integerCompare _ =>
      rcases h : s.integer with _ | ⟨b, _ | ⟨a, rest⟩⟩ <;> simp [apply, reduced, h]
  | integerAbs | integerNeg | floatFromInteger | booleanFromInteger =>
      rcases h : s.integer with _ | ⟨a, rest⟩ <;> simp [apply, reduced, h]
  | floatOp _ | floatCompare _ =>
      rcases h : s.float with _ | ⟨b, _ | ⟨a, rest⟩⟩ <;> simp [apply, reduced, h]
  | floatFun _ | integerFromFloat | booleanFromFloat =>
      rcases h : s.float with _ | ⟨a, rest⟩ <;> simp [apply, reduced, h]
  | booleanOp _ =>
      rcases h : s.boolean with _ | ⟨b, _ | ⟨a, rest⟩⟩ <;> simp [apply, reduced, h]
  | booleanNot | integerFromBoolean | floatFromBoolean =>
      rcases h : s.boolean with _ | ⟨a, rest⟩ <;> simp [apply, reduced, h]
  | constant _ | noop | inputDepth => simp [apply, reduced]
  | move m on =>
      have hmoved := s.rearrange_reduced m.apply_map on
      exact (congrArg reduced hmoved).trans (reduced_reduced _)
  | moveAt m on =>
      have hmoved := s.moveAt_reduced m on
      exact (congrArg reduced hmoved).trans (reduced_reduced _)
  | stackDepth on =>
      simp only [apply, depth_reduced]
      simp [reduced]
  | quote => rcases h : s.exec with _ | ⟨item, exec⟩ <;> simp [apply, reduced, h]
  | branch => exact branch_reduced maxPoints s
  | combinatorK =>
      rcases h : s.exec with _ | ⟨a, _ | ⟨b, exec⟩⟩ <;> simp [apply, reduced, h]
  | combinatorS => exact combinatorS_reduced maxPoints s
  | combinatorY => rcases h : s.exec with _ | ⟨a, exec⟩ <;> simp [apply, reduced, h]
  | doRange => exact rangeLoop_reduced s
  | doTimes => exact countedLoop_reduced s reduced_withoutIndex
  | doCount => exact countedLoop_reduced s Item.reduced_reduced
  | inputIndex => exact inputIndex_reduced maxPoints s
  | inputAll => exact pushAll_reduced s s.input.reverse
  | inputAllReversed => exact pushAll_reduced s s.input
  | inputAt n =>
      have hinput : s.reduced.input = s.input := rfl
      rw [apply, apply, hinput]
      split
      · next item _ => exact push_reduced s item
      · exact reduced_reduced s

/-! ## Steps -/

theorem execute_reduced (maxPoints : Int) (s : Stacks) (item : Item) :
    (s.reduced.execute maxPoints item.reduced).map reduced =
      (s.execute maxPoints item).map reduced := by
  cases item with
  | list items =>
      simp only [Item.reduced_list, execute, reduced, Except.map, List.map_append,
        Item.map_reduced_map_reduced]
  | int n => simp [execute, Item.reduced, push, reduced, Except.map, Int32.wrap_wrap]
  | float _ | bool _ => simp [execute, Item.reduced, push, reduced, Except.map]
  | hole => rfl
  | name n =>
      simp only [Item.reduced, execute, Instruction.ofName?_canonicalName]
      split
      · next i _ => exact congrArg Except.ok (apply_reduced maxPoints s i)
      · simp [Except.map, reduced, Item.reduced]
      · rfl

namespace Congruent

theorem exec_cases (h : s.Congruent t) : s.exec = [] ∧ t.exec = [] ∨
    ∃ x xs y ys, s.exec = x :: xs ∧ t.exec = y :: ys ∧ x.Congruent y ∧
      Congruent { s with exec := xs } { t with exec := ys } := by
  have hexec := h.exec
  cases hs : s.exec with
  | nil =>
      rw [hs, List.forall₂_nil_left_iff] at hexec
      exact .inl ⟨rfl, hexec⟩
  | cons x xs =>
      rw [hs, List.forall₂_cons_left_iff] at hexec
      obtain ⟨y, ys, hxy, hrest, ht⟩ := hexec
      exact .inr ⟨x, xs, y, ys, rfl, ht, hxy, { h with exec := hrest }⟩

/-- Congruent items do the same to congruent stacks: they fail for the same reason, or leave
congruent stacks. -/
theorem execute (h : s.Congruent t) {x y : Item} (hxy : x.Congruent y) (maxPoints : Int) :
    (∃ e, s.execute maxPoints x = .error e ∧ t.execute maxPoints y = .error e) ∨
      ∃ s' t', s.execute maxPoints x = .ok s' ∧ t.execute maxPoints y = .ok t' ∧
        s'.Congruent t' := by
  have hmap : (s.execute maxPoints x).map reduced = (t.execute maxPoints y).map reduced := by
    rw [← execute_reduced, reduced_eq_iff.mpr h, (Item.reduced_eq_iff x y).mpr hxy,
      execute_reduced]
  cases hs : s.execute maxPoints x with
  | error e =>
      cases ht : t.execute maxPoints y with
      | error e' =>
          rw [hs, ht] at hmap
          exact .inl ⟨e, rfl, congrArg Except.error (Except.error.inj hmap).symm⟩
      | ok t' =>
          rw [hs, ht] at hmap
          cases hmap
  | ok s' =>
      cases ht : t.execute maxPoints y with
      | error e =>
          rw [hs, ht] at hmap
          cases hmap
      | ok t' =>
          rw [hs, ht] at hmap
          exact .inr ⟨s', t', rfl, rfl, reduced_eq_iff.mp (Except.ok.inj hmap)⟩

/-- Runs on congruent stacks take as many steps, end for the same reason and leave congruent
stacks. -/
theorem run (h : s.Congruent t) (maxPoints : Int) (limit : Nat) :
    (s.run maxPoints limit).state.Congruent (t.run maxPoints limit).state ∧
      (s.run maxPoints limit).steps = (t.run maxPoints limit).steps ∧
      (s.run maxPoints limit).error? = (t.run maxPoints limit).error? := by
  induction limit generalizing s t with
  | zero => exact ⟨h, rfl, rfl⟩
  | succ limit ih =>
      rcases h.exec_cases with ⟨hs, ht⟩ | ⟨x, xs, y, ys, hs, ht, hxy, hpopped⟩
      · rw [run_of_nil hs, run_of_nil ht]
        exact ⟨h, rfl, rfl⟩
      · rcases hpopped.execute hxy maxPoints with ⟨e, hes, het⟩ | ⟨s', t', hs', ht', hnext⟩
        · rw [run_succ_of_error hs hes, run_succ_of_error ht het]
          exact ⟨hpopped, rfl, rfl⟩
        · rw [run_succ_of_ok hs hs', run_succ_of_ok ht ht']
          obtain ⟨hstate, hsteps, herror⟩ := ih hnext
          exact ⟨hstate, congrArg (· + 1) hsteps, herror⟩

theorem after (h : s.Congruent t) (maxPoints : Int) (n : Nat) :
    (s.after maxPoints n).Congruent (t.after maxPoints n) := by
  induction n with
  | zero => exact h
  | succ n ih => exact (ih.run maxPoints 1).1

end Congruent

end PushFitness.Stacks
