import PushFitness.Fitness.Evaluator
import PushFitness.Proofs.Machine.Effects

/-!
# Calls of an evaluator

Whoever has an evaluator can load an input into it, run a program and score a case, in
any order and with any arguments. What such a call answers is said here without the
evaluator it is made on: a run depends on the kind of the numbers, on the settings, on
the cap of the machine, and on its arguments (`run_of_unloadable`, `run_of_stopped`,
`run_of_finished`). The stacks that the call finds are not among them, and neither are
the counters of the machine.

What a run does depend on, no call changes. So evaluators that are `Alike` stay so,
whatever is called on one of them, and they answer alike (`run_agree`, `score_agree`).
-/

namespace PushFitness

/-- The same answer with the same reports, and the same contents on all stacks. The
counters of the two machines may differ. -/
structure Evaluated.Agree {ε α : Type} (r r' : Evaluated ε α) : Prop where
  result : r'.result = r.result
  records : r'.records = r.records
  state : r'.evaluator.machine.state = r.evaluator.machine.state

namespace Evaluator

variable {e e' : Evaluator} {program : Program} {input v : Scalar} {err : EvaluationError}

/-- The stacks from which a program is run on a converted input. -/
def startStacks (v : Scalar) (program : Program) : Stacks := (inputStacks v).load program

/-- The stacks after a number of steps of a program on an input that has been loaded. -/
def stacksAfter (loaded : Evaluator) (program : Program) (n : Nat) : Stacks :=
  (loaded.machine.load program).state.after loaded.machine.maxPoints n

/-- The run of a program on a converted input. -/
def attempt (e : Evaluator) (program : Program) (v : Scalar) : Run :=
  (startStacks v program).run e.machine.maxPoints e.config.executionLimit

/-- The top of the stack of a kind of numbers. -/
def topNumber? (t : ProblemType) (s : Stacks) : Option Scalar :=
  List.head? <| match t with
    | .integer => s.integer.map .int
    | .float => s.float.map .float

def cutOff (e : Evaluator) (r : Run) : Bool :=
  decide (e.config.executionLimit ≤ r.steps) && !r.state.exec.isEmpty

/-! ## Loading -/

theorem startStacks_input (v : Scalar) (program : Program) :
    (startStacks v program).input = [v.toItem] := by
  cases v <;> rfl

theorem startStacks_isNumber (v : Scalar) (program : Program) :
    ∀ item ∈ (startStacks v program).input, item.IsNumber := by
  rw [startStacks_input]
  cases v with
  | int _ | float _ => exact List.forall_mem_singleton.mpr trivial

theorem startStacks_oneInput (v : Scalar) (program : Program) :
    (startStacks v program).OneInput where
  number := startStacks_isNumber v program
  single := Nat.le_of_eq (by rw [startStacks_input, List.length_singleton])

theorem load_of_error (h : e.problemType.loadable input = .error err) :
    e.load input = ({ e with machine := e.machine.clear }, .error err) := by
  simp only [load, h]

theorem load_of_ok (h : e.problemType.loadable input = .ok v) :
    e.load input = ({ e with machine := { e.machine with state := inputStacks v } }, .ok ()) := by
  simp only [load, h]
  rfl

/-- An input that was loaded has been converted, and is all that the stacks hold. -/
theorem load_eq_ok {loaded : Evaluator} (h : e.load input = (loaded, .ok ())) :
    ∃ v, e.problemType.loadable input = .ok v ∧
      loaded = { e with machine := { e.machine with state := inputStacks v } } := by
  cases hv : e.problemType.loadable input with
  | error err =>
      rw [load_of_error hv] at h
      cases h
  | ok v =>
      rw [load_of_ok hv] at h
      exact ⟨v, rfl, (congrArg Prod.fst h).symm⟩

/-! ## Running -/

theorem run_of_unloadable (program : Program)
    (h : e.problemType.loadable input = .error err) :
    (e.run program input).result = .error err ∧ (e.run program input).records = [] ∧
      (e.run program input).evaluator.machine.state = .empty := by
  rw [run, load_of_error h]
  exact ⟨rfl, rfl, rfl⟩

theorem run_of_stopped (h : e.problemType.loadable input = .ok v) {stop : MachineError}
    (hstop : (e.attempt program v).error? = some stop) :
    (e.run program input).result = .error (.machine stop) ∧
      (e.run program input).records = [] ∧
      (e.run program input).evaluator.machine.state = (e.attempt program v).state := by
  simp only [attempt, startStacks] at hstop ⊢
  rw [run, load_of_ok h]
  simp only [Machine.execute, Machine.step, Machine.load, hstop, and_self]

theorem run_of_finished (h : e.problemType.loadable input = .ok v)
    (hnone : (e.attempt program v).error? = none) :
    (e.run program input).result =
        .ok ⟨topNumber? e.problemType (e.attempt program v).state,
          (e.attempt program v).steps, e.cutOff (e.attempt program v)⟩ ∧
      (e.run program input).records =
        (if e.cutOff (e.attempt program v) then
          [budgetRecord e.config.executionLimit input] else []) ∧
      (e.run program input).evaluator.machine.state = (e.attempt program v).state := by
  simp only [attempt, startStacks, cutOff, topNumber?] at hnone ⊢
  rw [run, load_of_ok h]
  simp only [Machine.execute, Machine.step, Machine.load, hnone, primary, and_true]
  exact ⟨rfl, rfl⟩

/-- However a run ends, it leaves what a number of steps within the limit leaves. -/
theorem run_state (program : Program) {loaded : Evaluator}
    (h : e.load input = (loaded, .ok ())) :
    ∃ n ≤ e.config.executionLimit,
      (e.run program input).evaluator.machine.state = loaded.stacksAfter program n := by
  obtain ⟨v, hv, rfl⟩ := load_eq_ok h
  obtain ⟨-, ⟨n, hn, hstate⟩, -⟩ :=
    (startStacks v program).run_eq_after e.config.executionLimit
  refine ⟨n, hn, ?_⟩
  cases hstop : (e.attempt program v).error? with
  | some stop => rw [(run_of_stopped hv hstop).2.2]; exact hstate
  | none => rw [(run_of_finished hv hstop).2.2]; exact hstate

/-! ## What calls keep -/

/-- Evaluators that differ at most in their stacks and in what their machines counted. -/
structure Alike (e e' : Evaluator) : Prop where
  problemType : e'.problemType = e.problemType
  config : e'.config = e.config
  maxPoints : e'.machine.maxPoints = e.machine.maxPoints

theorem Alike.refl (e : Evaluator) : e.Alike e := ⟨rfl, rfl, rfl⟩

theorem Alike.trans {e'' : Evaluator} (h : e.Alike e') (h' : e'.Alike e'') : e.Alike e'' :=
  ⟨h'.problemType.trans h.problemType, h'.config.trans h.config, h'.maxPoints.trans h.maxPoints⟩

theorem load_alike (e : Evaluator) (input : Scalar) : e.Alike (e.load input).1 := by
  cases h : e.problemType.loadable input with
  | error err => rw [load_of_error h]; exact ⟨rfl, rfl, rfl⟩
  | ok v => rw [load_of_ok h]; exact ⟨rfl, rfl, rfl⟩

theorem run_alike (e : Evaluator) (program : Program) (input : Scalar) :
    e.Alike (e.run program input).evaluator := by
  have hload := e.load_alike input
  rw [run]
  split
  · next loaded err hl =>
      rw [hl] at hload
      exact hload
  · next loaded hl =>
      rw [hl] at hload
      simp only [Machine.execute, Machine.step, Machine.load]
      split
      · next machine err hm =>
          split at hm
          · cases hm
            exact ⟨hload.problemType, hload.config, hload.maxPoints⟩
          · cases hm
      · next machine steps hm =>
          split at hm
          · cases hm
          · cases hm
            exact ⟨hload.problemType, hload.config, hload.maxPoints⟩

theorem score_alike (e : Evaluator) (program : Program) (c : Case) :
    e.Alike (e.score program c).evaluator := e.run_alike program c.input

/-! ## Alike evaluators answer alike -/

theorem Alike.run_agree (h : e.Alike e') (program : Program) (input : Scalar) :
    (e.run program input).Agree (e'.run program input) := by
  have hloadable : e'.problemType.loadable input = e.problemType.loadable input := by
    rw [h.problemType]
  have hattempt (v : Scalar) : e'.attempt program v = e.attempt program v := by
    simp only [attempt, h.config, h.maxPoints]
  cases hv : e.problemType.loadable input with
  | error err =>
      obtain ⟨hresult, hrecords, hstate⟩ := run_of_unloadable program hv
      rw [hv] at hloadable
      obtain ⟨hresult', hrecords', hstate'⟩ := run_of_unloadable program hloadable
      exact ⟨hresult'.trans hresult.symm, hrecords'.trans hrecords.symm,
        hstate'.trans hstate.symm⟩
  | ok v =>
      rw [hv] at hloadable
      cases hstop : (e.attempt program v).error? with
      | some stop =>
          obtain ⟨hresult, hrecords, hstate⟩ := run_of_stopped hv hstop
          rw [← hattempt] at hstop
          obtain ⟨hresult', hrecords', hstate'⟩ := run_of_stopped hloadable hstop
          rw [hattempt] at hstate'
          exact ⟨hresult'.trans hresult.symm, hrecords'.trans hrecords.symm,
            hstate'.trans hstate.symm⟩
      | none =>
          obtain ⟨hresult, hrecords, hstate⟩ := run_of_finished hv hstop
          rw [← hattempt] at hstop
          obtain ⟨hresult', hrecords', hstate'⟩ := run_of_finished hloadable hstop
          simp only [hattempt, cutOff, h.problemType, h.config] at hresult' hrecords' hstate'
          exact ⟨hresult'.trans hresult.symm, hrecords'.trans hrecords.symm,
            hstate'.trans hstate.symm⟩

theorem Alike.score_agree (h : e.Alike e') (program : Program) (c : Case) :
    (e.score program c).Agree (e'.score program c) := by
  obtain ⟨hresult, hrecords, hstate⟩ := h.run_agree program c.input
  refine ⟨?_, hrecords, hstate⟩
  simp only [score, hresult, h.config]

/-! ## Histories of calls -/

/-- What can be called on an evaluator. -/
inductive Call
  | load (input : Scalar)
  | run (program : Program) (input : Scalar)
  | score (program : Program) (c : Case)

def call (e : Evaluator) : Call → Evaluator
  | .load input => (e.load input).1
  | .run program input => (e.run program input).evaluator
  | .score program c => (e.score program c).evaluator

/-- The evaluator after several calls, the first one first. -/
def afterCalls (e : Evaluator) (calls : List Call) : Evaluator := calls.foldl call e

theorem call_alike (e : Evaluator) (c : Call) : e.Alike (e.call c) := by
  cases c with
  | load input => exact e.load_alike input
  | run program input => exact e.run_alike program input
  | score program c => exact e.score_alike program c

theorem afterCalls_alike (e : Evaluator) (calls : List Call) : e.Alike (e.afterCalls calls) := by
  induction calls generalizing e with
  | nil => exact .refl e
  | cons c calls ih => exact (e.call_alike c).trans (ih (e.call c))

end Evaluator

end PushFitness
