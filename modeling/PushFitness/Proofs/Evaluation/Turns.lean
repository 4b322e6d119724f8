import PushFitness.Fitness.Context
import PushFitness.Proofs.Evaluation.Calls

/-!
# A fitness in single turns

`Evaluator.fitness` scores all of its cases in one go. Where several evaluators are used at
the same time, each has its turn while the others wait in the middle of something. So here
the work is cut up: a turn loads an input with the program, executes one item, or reads an
error off the stacks.

At every point it is settled what will come of it, and `Evaluator.outlook` says what: the
evaluator and the fitness as they are if nobody interferes. A turn does not change the outlook
(`outlook_turn`), and at the beginning it is `fitness` (`outlook_fitness`). Turns come to an
end because each case has a limited number of them (`size_turn_lt`).
-/

namespace PushFitness

/-- How far a fitness is: between two cases, in a run with a number of steps left and some
done, or at the end. The errors are those of the cases before. -/
inductive Scoring
  | between (errors : List Binary64) (rest : List Case)
  | running (errors : List Binary64) (c : Case) (rest : List Case) (left done : Nat)
  | ended (result : Except FitnessError Binary64)

namespace Evaluator

variable {e : Evaluator} {program : Program}

/-! ## Turns -/

def withState (e : Evaluator) (s : Stacks) : Evaluator :=
  { e with machine := { e.machine with state := s } }

/-- Loads an input and the program, so that the first item can be executed. -/
def begin (e : Evaluator) (program : Program) (input : Scalar) :
    Evaluator × Except EvaluationError Unit :=
  match e.load input with
  | (loaded, .error err) => (loaded, .error err)
  | (loaded, .ok ()) =>
    let machine := { loaded.machine with executions := loaded.machine.executions + 1 }
    ({ loaded with machine := machine.load program }, .ok ())

/-- Counts the steps of a run and reads the signed error off the stacks. -/
def readOff (e : Evaluator) (c : Case) (steps : Nat) :
    Evaluator × Except EvaluationError Binary64 :=
  let exhausted := decide (e.config.executionLimit ≤ steps) && !e.machine.state.exec.isEmpty
  ({ e with machine := { e.machine with totalSteps := e.machine.totalSteps + steps } },
    signedError e.config ⟨e.primary.head?, steps, exhausted⟩ c.expected)

/-- Ends a run with the error of its case, and goes on with the next one if there is one. -/
def settle (e : Evaluator) (errors : List Binary64) (c : Case) (rest : List Case) (steps : Nat) :
    Evaluator × Scoring :=
  match e.readOff c steps with
  | (counted, .ok x) => (counted, .between (errors ++ [x]) rest)
  | (counted, .error err) => (counted, .ended (.error (.evaluation err)))

def turn (e : Evaluator) (program : Program) : Scoring → Evaluator × Scoring
  | .between errors [] => (e, .ended ((averageError errors).mapError .average))
  | .between errors (c :: rest) =>
    match e.begin program c.input with
    | (loaded, .error err) => (loaded, .ended (.error (.evaluation err)))
    | (loaded, .ok ()) => (loaded, .running errors c rest e.config.executionLimit 0)
  | .running errors c rest left done =>
    match left, e.machine.state.exec with
    | left + 1, item :: exec =>
      let popped := { e.machine.state with exec := exec }
      match popped.execute e.machine.maxPoints item with
      | .ok next => (e.withState next, .running errors c rest left (done + 1))
      | .error err => (e.withState popped, .ended (.error (.evaluation (.machine err))))
    | _, _ => e.settle errors c rest done
  | .ended result => (e, .ended result)

/-! ## What will come of it -/

/-- The signed error when a run has ended, with the evaluator that it leaves. -/
def afterRun (e : Evaluator) (c : Case) (r : Run) : Evaluator × Except EvaluationError Binary64 :=
  match r.error? with
  | some stop => (e.withState r.state, .error (.machine stop))
  | none => (e.withState r.state).readOff c r.steps

/-- The fitness when the errors of the last cases are known as well. -/
def conclude (errors : List Binary64) (scored : Evaluated EvaluationError (List Binary64)) :
    Evaluator × Except FitnessError Binary64 :=
  (scored.evaluator,
    match scored.result with
    | .error err => .error (.evaluation err)
    | .ok later => (averageError (errors ++ later)).mapError .average)

/-- The fitness when the error of one case is known, and the evaluator on which the last cases
are scored. -/
def resume (program : Program) (errors : List Binary64) (rest : List Case) :
    Evaluator × Except EvaluationError Binary64 → Evaluator × Except FitnessError Binary64
  | (e, .error err) => (e, .error (.evaluation err))
  | (e, .ok x) => conclude (errors ++ [x]) (e.scoreAll program rest)

def outlook (e : Evaluator) (program : Program) : Scoring → Evaluator × Except FitnessError Binary64
  | .between errors rest => conclude errors (e.scoreAll program rest)
  | .running errors c rest left done =>
    resume program errors rest
      (e.afterRun c (e.machine.state.runFrom e.machine.maxPoints left done))
  | .ended result => (e, result)

theorem outlook_fitness (e : Evaluator) (program : Program) (cases : List Case) :
    e.outlook program (.between [] cases) =
      ((e.fitness program cases).evaluator, (e.fitness program cases).result) := rfl

theorem score_of_begin_error {c : Case} {loaded : Evaluator} {err : EvaluationError}
    (h : e.begin program c.input = (loaded, .error err)) :
    ((e.score program c).evaluator, (e.score program c).result) = (loaded, .error err) := by
  rw [begin] at h
  split at h
  · next loaded' err' hload =>
      cases h
      simp only [score, run, hload]
      rfl
  · cases h

theorem score_of_begin_ok {c : Case} {loaded : Evaluator}
    (h : e.begin program c.input = (loaded, .ok ())) :
    ((e.score program c).evaluator, (e.score program c).result) =
      loaded.afterRun c
        (loaded.machine.state.run loaded.machine.maxPoints e.config.executionLimit) := by
  rw [begin] at h
  split at h
  · cases h
  · next ready hload =>
      have hconfig : ready.config = e.config := by
        have halike := e.load_alike c.input
        rw [hload] at halike
        exact halike.config
      cases h
      simp only [score, run, hload, Machine.execute, Machine.step, Machine.load, ← hconfig]
      generalize Stacks.run _ _ _ = r
      obtain ⟨state, steps, error?⟩ := r
      cases error? <;> rfl

theorem conclude_cons (e : Evaluator) (program : Program) (errors : List Binary64) (c : Case)
    (rest : List Case) : conclude errors (e.scoreAll program (c :: rest)) =
      resume program errors rest ((e.score program c).evaluator, (e.score program c).result) := by
  rw [scoreAll]
  cases (e.score program c).result with
  | error err => rfl
  | ok x =>
      simp only [conclude, resume]
      cases (scoreAll (e.score program c).evaluator program rest).result with
      | error err => rfl
      | ok later => simp only [Except.map, List.append_assoc, List.singleton_append]

theorem outlook_settle (e : Evaluator) (program : Program) (errors : List Binary64) (c : Case)
    (rest : List Case) (steps : Nat) :
    (e.settle errors c rest steps).1.outlook program (e.settle errors c rest steps).2 =
      resume program errors rest (e.readOff c steps) := by
  rw [settle]
  cases e.readOff c steps with
  | mk counted result => cases result <;> rfl

/-- What a turn in a run can do: end it, execute an item, or find one that stops it. -/
theorem turn_running (e : Evaluator) (program : Program) (errors : List Binary64) (c : Case)
    (rest : List Case) (left done : Nat) :
    (e.turn program (.running errors c rest left done) = e.settle errors c rest done ∧
      e.machine.state.runFrom e.machine.maxPoints left done = ⟨e.machine.state, done, none⟩) ∨
    (∃ left' next, left = left' + 1 ∧
      e.turn program (.running errors c rest left done) =
        (e.withState next, .running errors c rest left' (done + 1)) ∧
      e.machine.state.runFrom e.machine.maxPoints left done =
        next.runFrom e.machine.maxPoints left' (done + 1)) ∨
    ∃ popped stop, e.turn program (.running errors c rest left done) =
        (e.withState popped, .ended (.error (.evaluation (.machine stop)))) ∧
      e.machine.state.runFrom e.machine.maxPoints left done = ⟨popped, done, some stop⟩ := by
  cases left with
  | zero => exact .inl ⟨rfl, rfl⟩
  | succ left =>
      cases hexec : e.machine.state.exec with
      | nil => exact .inl (by simp only [turn, Stacks.runFrom, hexec, and_self])
      | cons item exec =>
          right
          simp only [turn, Stacks.runFrom, hexec]
          cases { e.machine.state with exec := exec }.execute e.machine.maxPoints item with
          | ok next => exact .inl ⟨left, next, rfl, rfl, rfl⟩
          | error stop => exact .inr ⟨_, stop, rfl, rfl⟩

/-- A turn does not change what will come. -/
theorem outlook_turn (e : Evaluator) (program : Program) (s : Scoring) :
    (e.turn program s).1.outlook program (e.turn program s).2 = e.outlook program s := by
  cases s with
  | between errors rest =>
      cases rest with
      | nil => simp only [turn, outlook, conclude, scoreAll, List.append_nil]
      | cons c rest =>
          rw [outlook, conclude_cons, turn]
          cases h : e.begin program c.input with
          | mk loaded result =>
              cases result with
              | error err =>
                  rw [score_of_begin_error h]
                  rfl
              | ok _ =>
                  rw [score_of_begin_ok h]
                  rfl
  | running errors c rest left done =>
      rw [outlook]
      rcases e.turn_running program errors c rest left done with
        ⟨hturn, hrun⟩ | ⟨left', next, -, hturn, hrun⟩ | ⟨popped, stop, hturn, hrun⟩
      · rw [hturn, hrun, outlook_settle]
        rfl
      · rw [hturn, hrun]
        rfl
      · rw [hturn, hrun]
        rfl
  | ended result => rfl

/-! ## The end of the turns -/

theorem begin_config (e : Evaluator) (program : Program) (input : Scalar) :
    (e.begin program input).1.config = e.config := by
  have halike := e.load_alike input
  rw [begin]
  split <;> next hload =>
    rw [hload] at halike
    exact halike.config

theorem settle_config (e : Evaluator) (errors : List Binary64) (c : Case) (rest : List Case)
    (steps : Nat) : (e.settle errors c rest steps).1.config = e.config := by
  have hread : (e.readOff c steps).1.config = e.config := rfl
  rw [settle]
  split <;> next h =>
    rw [h] at hread
    exact hread

theorem turn_config (e : Evaluator) (program : Program) (s : Scoring) :
    (e.turn program s).1.config = e.config := by
  cases s with
  | between errors rest =>
      cases rest with
      | nil => rfl
      | cons c rest =>
          have hbegin := e.begin_config program c.input
          simp only [turn]
          split <;> next h =>
            rw [h] at hbegin
            exact hbegin
  | running errors c rest left done =>
      rcases e.turn_running program errors c rest left done with
        ⟨hturn, -⟩ | ⟨left', next, -, hturn, -⟩ | ⟨popped, stop, hturn, -⟩
      · rw [hturn, settle_config]
      · rw [hturn]
        rfl
      · rw [hturn]
        rfl
  | ended result => rfl

end Evaluator

/-- How many turns there may still be if no case takes more than `limit` steps. -/
def Scoring.size (limit : Nat) : Scoring → Nat
  | between _ rest => rest.length * (limit + 2) + 1
  | running _ _ rest left _ => rest.length * (limit + 2) + left + 2
  | ended _ => 0

theorem Evaluator.size_settle_le (e : Evaluator) (errors : List Binary64) (c : Case)
    (rest : List Case) (steps limit : Nat) :
    (e.settle errors c rest steps).2.size limit ≤ rest.length * (limit + 2) + 1 := by
  rw [settle]
  split
  · exact Nat.le_refl _
  · exact Nat.zero_le _

theorem Evaluator.size_turn_lt (e : Evaluator) (program : Program) {s : Scoring}
    (h : ∀ result, s ≠ .ended result) :
    (e.turn program s).2.size e.config.executionLimit < s.size e.config.executionLimit := by
  cases s with
  | between errors rest =>
      cases rest with
      | nil => exact Nat.succ_pos _
      | cons c rest =>
          simp only [turn]
          split
          · exact Nat.succ_pos _
          · simp only [Scoring.size, List.length_cons, Nat.succ_mul]
            omega
  | running errors c rest left done =>
      rcases e.turn_running program errors c rest left done with
        ⟨hturn, -⟩ | ⟨left', next, rfl, hturn, -⟩ | ⟨popped, stop, hturn, -⟩
      · have hsettle := e.size_settle_le errors c rest done e.config.executionLimit
        rw [hturn, Scoring.size]
        omega
      · rw [hturn, Scoring.size, Scoring.size]
        omega
      · rw [hturn]
        exact Nat.succ_pos _
  | ended result => exact absurd rfl (h result)

end PushFitness
