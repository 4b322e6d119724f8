import Mathlib.Logic.Function.Iterate
import PushFitness.Proofs.Evaluation.Completion

/-!
# Programs that repeat an item without an end

The program `(exec.y a)` puts itself back behind `a` each time. If `a` is neutral, it is gone
when its points have been executed, and the program is pending alone as it was at first. One
turn takes two steps more than `a` has points: the program is opened, `exec.y` is executed,
and `a` is run (`run_turn`). So the run is a cycle that changes the other stacks, and after
`k` turns they are what `k` runs of `a` leave (`run_turns`).

A limit therefore always cuts such a run off, somewhere in a turn. `after_in_turn` says what is
on the stacks there: what `a` leaves when it is run by itself for the steps of the turn, less
the first two.
-/

namespace PushFitness

variable {maxPoints : Int} {s : Stacks} {a : Item}

/-- The program that runs an item again and again. -/
def repeating (a : Item) : Program := [.name "exec.y", a]

namespace Stacks

/-! ## One turn -/

theorem execute_repeating (exec : List Item) :
    (s.withPending exec).execute maxPoints (.list (repeating a)) =
      .ok (s.withPending (.name "exec.y" :: a :: exec)) := rfl

theorem execute_y (exec : List Item) :
    (s.withPending (a :: exec)).execute maxPoints (.name "exec.y") =
      .ok (s.withPending (a :: .list (repeating a) :: exec)) :=
  execute_name (i := .combinatorY) rfl

/-- The first two steps of a turn put the program behind its item. -/
theorem run_begun (n : Nat) :
    (s.withPending [.list (repeating a)]).run maxPoints (n + 2) =
      { (s.withPending [a, .list (repeating a)]).run maxPoints n with
        steps := ((s.withPending [a, .list (repeating a)]).run maxPoints n).steps + 2 } := by
  rw [run_withPending_cons (execute_repeating []), run_withPending_cons (execute_y [])]

theorem after_begun (n : Nat) : (s.withPending [.list (repeating a)]).after maxPoints (n + 2) =
    (s.withPending [a, .list (repeating a)]).after maxPoints n := by
  rw [after_succ, next_withPending_cons (execute_repeating []), after_succ,
    next_withPending_cons (execute_y [])]

theorem run_turn (maxPoints : Int) (hin : ∀ i ∈ s.input, i.IsNumber)
    (ha : ∀ leaf ∈ a.leaves, leaf.Neutral) :
    (s.withPending [.list (repeating a)]).run maxPoints (a.size + 2) =
      ⟨(s.ran maxPoints a).withPending [.list (repeating a)], a.size + 2, none⟩ := by
  have hitem : (s.withPending [a, .list (repeating a)]).run maxPoints a.size = _ :=
    (completes_neutral hin ha).run [.list (repeating a)]
  rw [run_begun, hitem]

/-- Within a turn the program is not pending alone, and the other stacks are those of a run of
the item by itself. -/
theorem after_in_turn (maxPoints : Int) (hin : ∀ i ∈ s.input, i.IsNumber)
    (ha : ∀ leaf ∈ a.leaves, leaf.Neutral) {r : Nat} (hr : r < a.size + 2) :
    ∃ row, row ≠ [] ∧ (row = [.list (repeating a)] ↔ r = 0) ∧
      (s.withPending [.list (repeating a)]).after maxPoints r =
        ((s.withPending [a]).after maxPoints (r - 2)).withPending row := by
  match r with
  | 0 => exact ⟨[.list (repeating a)], List.cons_ne_nil _ _, by simp, rfl⟩
  | 1 =>
      refine ⟨[.name "exec.y", a], List.cons_ne_nil _ _, by simp, ?_⟩
      exact next_withPending_cons (execute_repeating [])
  | r + 2 =>
      -- the item is being run with the program behind it, which makes no difference to it
      have hitem : Completes maxPoints s [a] a.size (s.ran maxPoints a) := completes_neutral hin ha
      obtain ⟨u, left, hleft, hafter⟩ := hitem.way r (by omega)
      have hbehind : (s.withPending [a, .list (repeating a)]).after maxPoints r =
          u.withPending (left ++ [.list (repeating a)]) := hafter [.list (repeating a)]
      have halone : (s.withPending [a]).after maxPoints r = u.withPending (left ++ []) := hafter []
      refine ⟨left ++ [.list (repeating a)], List.append_ne_nil_of_left_ne_nil hleft _, ?_, ?_⟩
      · simp [hleft]
      · rw [after_begun, hbehind, Nat.add_sub_cancel, halone]
        rfl

/-! ## All turns -/

theorem iterate_ran_input (maxPoints : Int) (hin : ∀ i ∈ s.input, i.IsNumber)
    (ha : ∀ leaf ∈ a.leaves, leaf.Neutral) (k : Nat) :
    ((ran maxPoints · a)^[k] s).input = s.input := by
  induction k with
  | zero => rfl
  | succ k ih =>
      rw [Function.iterate_succ_apply', ran_input (ih ▸ hin) ha, ih]

theorem run_turns (maxPoints : Int) (hin : ∀ i ∈ s.input, i.IsNumber)
    (ha : ∀ leaf ∈ a.leaves, leaf.Neutral) (k : Nat) :
    (s.withPending [.list (repeating a)]).run maxPoints (k * (a.size + 2)) =
      ⟨((ran maxPoints · a)^[k] s).withPending [.list (repeating a)], k * (a.size + 2), none⟩ := by
  induction k with
  | zero =>
      rw [Nat.zero_mul]
      rfl
  | succ k ih =>
      have hin' : ∀ i ∈ ((ran maxPoints · a)^[k] s).input, i.IsNumber :=
        iterate_ran_input maxPoints hin ha k ▸ hin
      rw [Nat.succ_mul, run_add_of_none (by rw [ih]), ih, run_turn maxPoints hin' ha,
        Function.iterate_succ_apply']

/-- Any number of steps is a number of full turns and a part of the next one. -/
theorem after_repeating (maxPoints : Int) (hin : ∀ i ∈ s.input, i.IsNumber)
    (ha : ∀ leaf ∈ a.leaves, leaf.Neutral) (n : Nat) :
    ∃ row, row ≠ [] ∧ (row = [.list (repeating a)] ↔ a.size + 2 ∣ n) ∧
      (s.withPending [.list (repeating a)]).after maxPoints n =
        ((((ran maxPoints · a)^[n / (a.size + 2)] s).withPending [a]).after maxPoints
          (n % (a.size + 2) - 2)).withPending row := by
  let turns := (ran maxPoints · a)^[n / (a.size + 2)] s
  have hin' : ∀ i ∈ turns.input, i.IsNumber := iterate_ran_input maxPoints hin ha _ ▸ hin
  obtain ⟨row, hrow, hwhole, hafter⟩ :=
    after_in_turn maxPoints hin' ha (Nat.mod_lt n (Nat.succ_pos (a.size + 1)))
  refine ⟨row, hrow, hwhole.trans Nat.dvd_iff_mod_eq_zero.symm, ?_⟩
  have hsplit : n / (a.size + 2) * (a.size + 2) + n % (a.size + 2) = n := by
    rw [Nat.mul_comm]
    exact Nat.div_add_mod n (a.size + 2)
  calc (s.withPending [.list (repeating a)]).after maxPoints n
      = ((s.withPending [.list (repeating a)]).after maxPoints
          (n / (a.size + 2) * (a.size + 2))).after maxPoints (n % (a.size + 2)) := by
        rw [← after_add, hsplit]
    _ = (turns.withPending [.list (repeating a)]).after maxPoints (n % (a.size + 2)) := by
        rw [after_of_run (run_turns maxPoints hin ha _)]
    _ = _ := hafter

/-- Such a run takes all the steps that it may take. -/
theorem run_repeating (maxPoints : Int) (hin : ∀ i ∈ s.input, i.IsNumber)
    (ha : ∀ leaf ∈ a.leaves, leaf.Neutral) (n : Nat) :
    (s.withPending [.list (repeating a)]).run maxPoints n =
      ⟨(s.withPending [.list (repeating a)]).after maxPoints n, n, none⟩ := by
  -- the limit falls within so many turns, and these run to their end without an error
  have hless : n < (n + 1) * (a.size + 2) := by
    rw [Nat.succ_mul, Nat.mul_succ]
    omega
  have hturns := run_turns maxPoints hin ha (n + 1)
  obtain ⟨u, hrun, -⟩ := (run_of_shorter hturns (Nat.le_of_lt hless)).2 hless
  rw [after_of_run hrun, hrun]

end Stacks

/-- After any number of turns of `a.size + 2` steps, and at no other time, the program is pending
alone, and the other stacks are those that `a` leaves when it is run as often. No limit is high
enough for the program: it takes all its steps and is reported as cut off, and the result is
read off what the full turns and a part of the next run of `a` leave. -/
theorem repeating_programs_cycle (e : Evaluator) (input v : Scalar) (a : Item)
    (hv : e.problemType.loadable input = .ok v) (ha : ∀ leaf ∈ a.leaves, leaf.Neutral) :
    (∀ k, (Evaluator.startStacks v (repeating a)).run e.machine.maxPoints (k * (a.size + 2)) =
      ⟨((Stacks.ran e.machine.maxPoints · a)^[k]
          (Evaluator.startStacks v (repeating a))).withPending [.list (repeating a)],
        k * (a.size + 2), none⟩) ∧
    (∀ n, ((Evaluator.startStacks v (repeating a)).run e.machine.maxPoints n).state.exec =
      [.list (repeating a)] ↔ a.size + 2 ∣ n) ∧
    (e.run (repeating a) input).records =
      [Evaluator.budgetRecord e.config.executionLimit input] ∧
    (e.run (repeating a) input).result = .ok
      ⟨Evaluator.topNumber? e.problemType
        ((((Stacks.ran e.machine.maxPoints · a)^[e.config.executionLimit / (a.size + 2)]
          (Evaluator.startStacks v (repeating a))).withPending [a]).after e.machine.maxPoints
            (e.config.executionLimit % (a.size + 2) - 2)),
        e.config.executionLimit, true⟩ := by
  have hin := Evaluator.startStacks_isNumber v (repeating a)
  have hstart : (Evaluator.startStacks v (repeating a)).withPending [.list (repeating a)] =
      Evaluator.startStacks v (repeating a) := by cases v <;> rfl
  have hturns := Stacks.run_turns e.machine.maxPoints hin ha
  have hsteps := Stacks.after_repeating e.machine.maxPoints hin ha
  have hall := Stacks.run_repeating e.machine.maxPoints hin ha
  simp only [hstart] at hturns hsteps hall
  refine ⟨hturns, fun n => ?_, ?_⟩
  · obtain ⟨row, -, hwhole, hafter⟩ := hsteps n
    rw [hall n, hafter]
    exact hwhole
  · obtain ⟨row, hrow, -, hafter⟩ := hsteps e.config.executionLimit
    have hattempt : e.attempt (repeating a) v = _ := hall e.config.executionLimit
    have hnone : (e.attempt (repeating a) v).error? = none := by rw [hattempt]
    have hcut : e.cutOff (e.attempt (repeating a) v) = true := by
      rw [Evaluator.cutOff_iff hnone, hattempt, hafter]
      exact hrow
    obtain ⟨hresult, hrecords, -⟩ := Evaluator.run_of_finished hv hnone
    rw [hcut] at hresult hrecords
    refine ⟨hrecords, ?_⟩
    rw [hresult, hattempt, hafter]
    rfl

/-- A list of three points that adds one. -/
def increment : Item := .list [.int 1, .name "integer.+"]

/-- An evaluator whose limit falls between the literal of the third turn and its addition. -/
def fourteenStepEvaluator : Evaluator :=
  .new .integer { EvaluatorConfig.default with
    executionLimit := 14, executionLimit_pos := Nat.succ_pos 13 }

theorem repeating_programs_cycle_increment :
    fourteenStepEvaluator.problemType.loadable (.int 7) = .ok (.int 7) ∧
    (∀ leaf ∈ increment.leaves, leaf.Neutral) ∧
    (Evaluator.startStacks (.int 7) (repeating increment)).run 100 10 =
      ⟨{ Evaluator.startStacks (.int 7) (repeating increment) with integer := [9] }, 10, none⟩ ∧
    (fourteenStepEvaluator.run (repeating increment) (.int 7)).result =
      .ok ⟨some (.int 1), 14, true⟩ := by
  have hleaves : ∀ leaf ∈ increment.leaves, leaf.Neutral := by decide +kernel
  obtain ⟨hturns, -, -, hresult⟩ :=
    repeating_programs_cycle fourteenStepEvaluator (.int 7) (.int 7) increment rfl hleaves
  exact ⟨rfl, hleaves, hturns 2, hresult⟩

end PushFitness
