import PushFitness.Machine.Effect

/-!
# Running programs

A step takes the top item of the exec stack and executes it: a list puts its items
back in order, a name is looked up, and a value goes to the stack of its kind. A
run is a number of steps and ends early when nothing is left to execute, or when
an item cannot be executed; that item is then gone and nothing else has changed.

A run without a limit need not end. It is given as the run with as many steps as
one cares to wait for, which has no answer if something is left to execute then.
-/

namespace PushFitness

/-- Why an item cannot be executed. -/
inductive MachineError
  | notExecutable
  | tooManyDigits (e : TooManyDigits)
deriving DecidableEq

def MachineError.message : MachineError → String
  | notExecutable => "Cannot execute NoneType value None"
  | tooManyDigits e => e.message

namespace Stacks

/-- Executes one item. -/
def execute (maxPoints : Int) (s : Stacks) : Item → Except MachineError Stacks
  | .list items => .ok { s with exec := items ++ s.exec }
  | .name n =>
    match Instruction.ofName? n with
    | .ok (some i) => .ok (s.apply maxPoints i)
    | .ok none => .ok { s with name := .name n :: s.name }
    | .error e => .error (.tooManyDigits e)
  | .hole => .error .notExecutable
  | value => .ok (s.push value)

end Stacks

/-- How a run ended: the stacks it left, the steps it took, and what stopped it if it
did not come to its end. -/
structure Run where
  state : Stacks
  steps : Nat
  error? : Option MachineError

namespace Stacks

/-- Runs for at most `limit` steps after `done` steps. -/
def runFrom (maxPoints : Int) : (limit done : Nat) → Stacks → Run
  | 0, done, s => ⟨s, done, none⟩
  | limit + 1, done, s =>
    match s.exec with
    | [] => ⟨s, done, none⟩
    | item :: exec =>
      let popped := { s with exec := exec }
      match popped.execute maxPoints item with
      | .ok next => runFrom maxPoints limit (done + 1) next
      | .error e => ⟨popped, done, some e⟩

/-- Runs for at most `limit` steps. -/
def run (maxPoints : Int) (limit : Nat) (s : Stacks) : Run := s.runFrom maxPoints limit 0

end Stacks

/-- A machine: its stacks, the cap on lists that it builds, and what it has done so
far. -/
structure Machine where
  state : Stacks
  maxPoints : Int
  totalSteps : Nat
  executions : Nat

/-- How many steps a run may take. -/
inductive StepLimit
  | atMost (n : Nat)
  | unlimited
deriving DecidableEq

namespace StepLimit

/-- A negative number stands for no limit. -/
def ofInt (n : Int) : StepLimit := if n < 0 then unlimited else atMost n.toNat

end StepLimit

namespace Machine

def new (maxPoints : Int) : Machine := ⟨.empty, maxPoints, 0, 0⟩

/-- Empties every stack and forgets no count. -/
def clear (m : Machine) : Machine := { m with state := .empty }

def load (m : Machine) (program : Program) : Machine :=
  { m with state := m.state.load program }

/-- Runs for at most `limit` steps. The steps are counted only if no item stops the
run. -/
def step (m : Machine) (limit : Nat) : Machine × Except MachineError Nat :=
  let r := m.state.run m.maxPoints limit
  match r.error? with
  | some e => ({ m with state := r.state }, .error e)
  | none =>
    ({ m with state := r.state, totalSteps := m.totalSteps + r.steps }, .ok r.steps)

/-- Loads a program and runs it for at most `limit` steps. -/
def execute (m : Machine) (program : Program) (limit : Nat) :
    Machine × Except MachineError Nat :=
  ({ m with executions := m.executions + 1 }.load program).step limit

/-- Whether a run has come to its end: nothing is left to execute, or an item has
stopped it. -/
def finished : Machine × Except MachineError Nat → Bool
  | (m, .ok _) => m.state.exec.isEmpty
  | (_, .error _) => true

/-- Runs within a limit. A run without one is waited for up to `fuel` steps. -/
def step? (fuel : Nat) (limit : StepLimit) (m : Machine) :
    Option (Machine × Except MachineError Nat) :=
  match limit with
  | .atMost n => some (m.step n)
  | .unlimited =>
    let result := m.step fuel
    if finished result then some result else none

/-- Loads a program and runs it within a limit. -/
def execute? (fuel : Nat) (limit : StepLimit) (m : Machine) (program : Program) :
    Option (Machine × Except MachineError Nat) :=
  ({ m with executions := m.executions + 1 }.load program).step? fuel limit

/-- Executes one item outside of a run. -/
def executeItem (m : Machine) (item : Item) : Machine × Except MachineError Unit :=
  match m.state.execute m.maxPoints item with
  | .ok s => ({ m with state := s }, .ok ())
  | .error e => (m, .error e)

/-- Puts an item on the stack of its kind. -/
def push (m : Machine) (item : Item) : Machine := { m with state := m.state.push item }

end Machine

end PushFitness
