import PushFitness.Proofs.Evaluation.Calls
import PushFitness.Proofs.Machine.Lockstep

/-!
# Evaluations in lockstep

What an evaluator makes of a program depends on the program only up to congruence. Loading
puts congruent programs on the exec and the code stack of one machine and of another, next
to one converted input, and from there the machines go in lockstep. The result of an
evaluation is the top of a typed stack, where both machines hold the same.

For an integer problem the input is reduced to 32 bits as it is loaded, so it may differ
by a multiple of `2 ^ 32` as any literal may.
-/

namespace PushFitness

/-- Inputs that a problem does not tell apart. -/
inductive ProblemType.SameInput : ProblemType → Scalar → Scalar → Prop
  | refl (t : ProblemType) (x : Scalar) : SameInput t x x
  | int {m n : Int} (h : m ≡ n [ZMOD 2 ^ 32]) : SameInput .integer (.int m) (.int n)

theorem ProblemType.SameInput.loadable_eq {t : ProblemType} {x y : Scalar}
    (h : t.SameInput x y) : t.loadable y = t.loadable x := by
  cases h with
  | refl => rfl
  | int h => rw [loadable, loadable, Int32.wrap_eq_wrap_iff.mpr h]

namespace Evaluator

variable {e e' : Evaluator} {p q : Program} {x y v : Scalar}

theorem loadable_eq_of_alike (halike : e.Alike e') (hxy : e.problemType.SameInput x y) :
    e'.problemType.loadable y = e.problemType.loadable x := by
  rw [halike.problemType, hxy.loadable_eq]

theorem load_congruent (hpq : List.Forall₂ Item.Congruent p q) (s : Stacks) :
    (s.load p).Congruent (s.load q) where
  integer := rfl
  float := rfl
  boolean := rfl
  input := rfl
  exec := .cons (.list hpq) (List.forall₂_same.mpr fun item _ => .same item)
  code := .cons (.list hpq) (List.forall₂_same.mpr fun item _ => .same item)
  name := List.forall₂_same.mpr fun item _ => .same item

theorem attempt_congruent (halike : e.Alike e') (hpq : List.Forall₂ Item.Congruent p q)
    (v : Scalar) : (e.attempt p v).state.Congruent (e'.attempt q v).state ∧
      (e.attempt p v).steps = (e'.attempt q v).steps ∧
      (e.attempt p v).error? = (e'.attempt q v).error? := by
  rw [attempt, attempt, halike.maxPoints, halike.config]
  exact (load_congruent hpq (inputStacks v)).run e.machine.maxPoints e.config.executionLimit

theorem topNumber?_of_congruent {s t : Stacks} (h : s.Congruent t) (kind : ProblemType) :
    topNumber? kind s = topNumber? kind t := by
  cases kind with
  | integer => simp only [topNumber?, h.integer]
  | float => simp only [topNumber?, h.float]

theorem cutOff_of_congruent (halike : e.Alike e') {r r' : Run}
    (hstate : r.state.Congruent r'.state) (hsteps : r.steps = r'.steps) :
    e.cutOff r = e'.cutOff r' := by
  have hexec : r.state.exec.isEmpty = r'.state.exec.isEmpty := by
    rw [Bool.eq_iff_iff, List.isEmpty_iff_length_eq_zero, List.isEmpty_iff_length_eq_zero,
      hstate.exec.length_eq]
  simp only [cutOff, hsteps, hexec, halike.config]

theorem run_congruent (halike : e.Alike e') (hpq : List.Forall₂ Item.Congruent p q)
    (hxy : e.problemType.SameInput x y) : (e'.run q y).result = (e.run p x).result ∧
      (e.run p x).evaluator.machine.state.Congruent (e'.run q y).evaluator.machine.state := by
  have hloadable := loadable_eq_of_alike halike hxy
  cases hv : e.problemType.loadable x with
  | error err =>
      rw [hv] at hloadable
      obtain ⟨hresult, -, hstate⟩ := run_of_unloadable p hv
      obtain ⟨hresult', -, hstate'⟩ := run_of_unloadable q hloadable
      rw [hresult, hresult', hstate, hstate']
      exact ⟨rfl, Stacks.reduced_eq_iff.mp rfl⟩
  | ok v =>
      rw [hv] at hloadable
      obtain ⟨hcongruent, hsteps, herror⟩ := attempt_congruent halike hpq v
      cases hstop : (e.attempt p v).error? with
      | some stop =>
          obtain ⟨hresult, -, hstate⟩ := run_of_stopped hv hstop
          rw [herror] at hstop
          obtain ⟨hresult', -, hstate'⟩ := run_of_stopped hloadable hstop
          rw [hresult, hresult', hstate, hstate']
          exact ⟨rfl, hcongruent⟩
      | none =>
          obtain ⟨hresult, -, hstate⟩ := run_of_finished hv hstop
          rw [herror] at hstop
          obtain ⟨hresult', -, hstate'⟩ := run_of_finished hloadable hstop
          rw [hresult, hresult', hstate, hstate', halike.problemType, hsteps,
            topNumber?_of_congruent hcongruent, cutOff_of_congruent halike hcongruent hsteps]
          exact ⟨rfl, hcongruent⟩

theorem stacksAfter_congruent (halike : e.Alike e') (hpq : List.Forall₂ Item.Congruent p q)
    (hxy : e.problemType.SameInput x y) (n : Nat) :
    ((e.load x).1.stacksAfter p n).Congruent ((e'.load y).1.stacksAfter q n) := by
  have hloadable := loadable_eq_of_alike halike hxy
  cases hv : e.problemType.loadable x with
  | error err =>
      rw [hv] at hloadable
      rw [load_of_error hv, load_of_error hloadable]
      simp only [stacksAfter, Machine.clear, Machine.load, halike.maxPoints]
      exact (load_congruent hpq .empty).after e.machine.maxPoints n
  | ok v =>
      rw [hv] at hloadable
      rw [load_of_ok hv, load_of_ok hloadable]
      simp only [stacksAfter, Machine.load, halike.maxPoints]
      exact (load_congruent hpq (inputStacks v)).after e.machine.maxPoints n

end Evaluator

/-- On evaluators with the same settings, congruent programs with inputs that the problem does
not tell apart have the same outcome, or fail for the same reason. After any number of steps
the typed stacks and the input stack are equal, and the stacks of programs hold congruent
items; so they are when the evaluations have ended. -/
theorem congruent_programs_run_alike {e e' : Evaluator} {p q : Program} {x y : Scalar}
    (halike : e.Alike e') (hpq : (Item.list p).Congruent (.list q))
    (hxy : e.problemType.SameInput x y) :
    (e'.run q y).result = (e.run p x).result ∧
    (∀ n, ((e.load x).1.stacksAfter p n).Congruent ((e'.load y).1.stacksAfter q n)) ∧
    (e.run p x).evaluator.machine.state.Congruent (e'.run q y).evaluator.machine.state := by
  have hitems : List.Forall₂ Item.Congruent p q := by
    rw [← Item.reduced_eq_iff, Item.reduced_list, Item.reduced_list, Item.list.injEq] at hpq
    exact Item.map_reduced_eq_iff.mp hpq
  obtain ⟨hresult, hstate⟩ := Evaluator.run_congruent halike hitems hxy
  exact ⟨hresult, Evaluator.stacksAfter_congruent halike hitems hxy, hstate⟩

/-- Adds a literal to the input, and keeps a name that is no instruction. -/
def addingTo (n : Int) (name : String) : Program := [.int n, .list [.name name, .name "integer.+"]]

theorem congruent_programs_run_alike_addingTo :
    (Item.list (addingTo 5 "x")).Congruent (.list (addingTo 4294967301 "y")) ∧
    ProblemType.SameInput .integer (.int 3) (.int (-4294967293)) ∧
    ((Evaluator.new .integer .default).run (addingTo 5 "x") (.int 3)).result =
      .ok ⟨some (.int 8), 5, false⟩ ∧
    ((Evaluator.new .integer .default).run (addingTo 4294967301 "y") (.int (-4294967293))).result =
      .ok ⟨some (.int 8), 5, false⟩ := by
  have hpq : (Item.list (addingTo 5 "x")).Congruent (.list (addingTo 4294967301 "y")) :=
    (Item.reduced_eq_iff _ _).mp rfl
  have hxy : ProblemType.SameInput .integer (.int 3) (.int (-4294967293)) := .int (by decide)
  have hrun : ((Evaluator.new .integer .default).run (addingTo 5 "x") (.int 3)).result =
      .ok ⟨some (.int 8), 5, false⟩ := rfl
  refine ⟨hpq, hxy, hrun, ?_⟩
  rw [← hrun]
  exact (congruent_programs_run_alike (.refl (.new .integer .default)) hpq hxy).1

end PushFitness
