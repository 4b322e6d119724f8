import PushFitness.Proofs.Evaluation.Calls
import PushFitness.Proofs.Evaluation.Completion
import PushFitness.Proofs.Machine.Division

/-!
# Arithmetic expressions as programs

An expression of integers, an input and the three operations of a ring is written as a program
with the operands in front of the operator (`Expression.code`). Running that program computes the
expression modulo `2 ^ 32`.

The machine reduces every literal, the input, and the result of every operation, and an
expression is computed without any of that. They agree because to reduce is to pass to the
representative of a class modulo `2 ^ 32`, and the operations respect the classes. So the
induction is on the expression, over all stacks: a part leaves its reduced value on top of what
it finds. How the program is grouped into lists does not matter, since none of its leaves works
on the exec stack.
-/

namespace PushFitness

/-- The operations of two integers that respect congruence. -/
inductive Operator
  | add
  | sub
  | mul

namespace Operator

def apply (a b : Int) : Operator → Int
  | add => a + b
  | sub => a - b
  | mul => a * b

def instruction : Operator → IntegerOp
  | add => .add
  | sub => .sub
  | mul => .mul

def word : Operator → String
  | add => "integer.+"
  | sub => "integer.-"
  | mul => "integer.*"

theorem ofName?_word (op : Operator) :
    Instruction.ofName? op.word = .ok (some (.integerOp op.instruction)) := by
  cases op <;> rfl

theorem instruction_apply (op : Operator) (a b : Int) :
    op.instruction.apply a b = Int32.wrap (op.apply a b) := by
  cases op <;> rfl

theorem apply_modEq (op : Operator) {a b a' b' n : Int} (ha : a ≡ a' [ZMOD n])
    (hb : b ≡ b' [ZMOD n]) : op.apply a b ≡ op.apply a' b' [ZMOD n] := by
  cases op with
  | add => exact ha.add hb
  | sub => exact ha.sub hb
  | mul => exact ha.mul hb

end Operator

/-- Arithmetic expressions in one input. -/
inductive Expression
  | literal (n : Int)
  | input
  | binary (op : Operator) (a b : Expression)
  | neg (a : Expression)

namespace Expression

variable {maxPoints : Int} {s : Stacks} {x y : Int}

/-- The value of an expression over all integers. -/
def value (x : Int) : Expression → Int
  | literal n => n
  | input => x
  | binary op a b => op.apply (a.value x) (b.value x)
  | neg a => -a.value x

/-- The leaves of a program for an expression. -/
def code : Expression → List Item
  | literal n => [.int n]
  | input => [.name "input.in0"]
  | binary op a b => a.code ++ b.code ++ [.name op.word]
  | neg a => a.code ++ [.name "integer.neg"]

theorem value_modEq (e : Expression) {n : Int} (h : x ≡ y [ZMOD n]) :
    e.value x ≡ e.value y [ZMOD n] := by
  induction e with
  | literal m => exact Int.ModEq.refl m
  | input => exact h
  | binary op a b iha ihb => exact op.apply_modEq iha ihb
  | neg a ih => exact ih.neg

theorem code_neutral (e : Expression) : ∀ leaf ∈ e.code, leaf.Neutral := by
  induction e with
  | literal n => exact List.forall_mem_singleton.mpr trivial
  | input => exact List.forall_mem_singleton.mpr (by decide +kernel)
  | binary op a b iha ihb =>
      have hword : (Item.name op.word).Neutral := by cases op <;> decide +kernel
      rw [code, List.forall_mem_append, List.forall_mem_append]
      exact ⟨⟨iha, ihb⟩, List.forall_mem_singleton.mpr hword⟩
  | neg a ih =>
      rw [code, List.forall_mem_append]
      exact ⟨ih, List.forall_mem_singleton.mpr (by decide +kernel)⟩

/-! ## What the code computes -/

/-- The stacks with the value of an expression on top. -/
def pushed (s : Stacks) (n : Int) : Stacks := { s with integer := Int32.wrap n :: s.integer }

theorem execute_word (op : Operator) (a b : Int) :
    (pushed (pushed s a) b).execute maxPoints (.name op.word) = .ok (pushed s (op.apply a b)) := by
  have hclass : op.apply (Int32.wrap a) (Int32.wrap b) ≡ op.apply a b [ZMOD 2 ^ 32] :=
    op.apply_modEq (Int32.wrap_modEq a) (Int32.wrap_modEq b)
  rw [Stacks.execute_integerOp op.instruction op.ofName?_word rfl, op.instruction_apply,
    Int32.wrap_eq_wrap_iff.mpr hclass]
  rfl

theorem execute_neg (a : Int) :
    (pushed s a).execute maxPoints (.name "integer.neg") = .ok (pushed s (-a)) := by
  rw [Stacks.execute_name (i := .integerNeg) rfl]
  show Except.ok { s with integer := Int32.wrap (-Int32.wrap a) :: s.integer } = _
  rw [Int32.wrap_eq_wrap_iff.mpr (Int32.wrap_modEq a).neg]
  rfl

/-- Whatever is on the stacks, the code of an expression puts its value on top. -/
theorem executeAll_code (e : Expression) (hinput : s.input.getLast? = some (.int x)) :
    s.executeAll maxPoints e.code = .ok (pushed s (e.value x)) := by
  induction e generalizing s with
  | literal n => rfl
  | input =>
      have hfetch : s.execute maxPoints (.name "input.in0") = .ok (pushed s x) := by
        rw [Stacks.execute_name (i := .inputAt 0) rfl, Stacks.apply]
        rw [← List.head?_reverse, List.head?_eq_getElem?] at hinput
        simp only [hinput]
        rfl
      rw [code, Stacks.executeAll_cons_of_ok hfetch]
      rfl
  | binary op a b iha ihb =>
      have hoperands : s.executeAll maxPoints (a.code ++ b.code) =
          .ok (pushed (pushed s (a.value x)) (b.value x)) := by
        rw [Stacks.executeAll_append_of_ok (iha hinput)]
        exact ihb (s := pushed s (a.value x)) hinput
      rw [code, Stacks.executeAll_append_of_ok hoperands,
        Stacks.executeAll_cons_of_ok (execute_word op _ _)]
      rfl
  | neg a ih =>
      rw [code, Stacks.executeAll_append_of_ok (ih hinput),
        Stacks.executeAll_cons_of_ok (execute_neg _)]
      rfl

/-- The same, with the program in front of what is pending and grouped in any way. -/
theorem completes_code (e : Expression) (hin : ∀ item ∈ s.input, item.IsNumber)
    (hinput : s.input.getLast? = some (.int x)) {item : Item} (hitem : item.leaves = e.code) :
    s.Completes maxPoints [item] item.size (pushed s (e.value x)) := by
  have hneutral : ∀ leaf ∈ item.leaves, leaf.Neutral := hitem ▸ e.code_neutral
  obtain ⟨t, ht, -, hcompletes⟩ := Stacks.completes_leaves maxPoints hin hneutral
  rw [hitem, e.executeAll_code hinput] at ht
  cases ht
  exact hcompletes

/-! ## Expressions on an evaluator -/

/-- What a run of a program leaves that puts the value of an expression on top of its input. -/
def answered (p : Program) (x n : Int) : Stacks :=
  { Evaluator.inputStacks (.int (Int32.wrap x)) with
    integer := [Int32.wrap n, Int32.wrap x], code := [.list p] }

theorem attempt_code (e : Expression) (E : Evaluator) (x : Int) {p : Program}
    (hp : Item.leavesOf p = e.code) (hlimit : p.size ≤ E.config.executionLimit) :
    E.attempt p (.int (Int32.wrap x)) = ⟨answered p x (e.value x), p.size, none⟩ := by
  let below : Stacks := { Evaluator.inputStacks (.int (Int32.wrap x)) with code := [.list p] }
  have hin : ∀ item ∈ below.input, item.IsNumber := List.forall_mem_singleton.mpr trivial
  have hcompletes : below.Completes E.machine.maxPoints [.list p] p.size
      (pushed below (e.value (Int32.wrap x))) :=
    e.completes_code hin rfl (by rw [Item.leaves_list, hp])
  -- the machine has reduced the input before, which the class of the value does not show
  have hvalue : Int32.wrap (e.value (Int32.wrap x)) = Int32.wrap (e.value x) :=
    Int32.wrap_eq_wrap_iff.mpr (e.value_modEq (Int32.wrap_modEq x))
  have hrun : (Evaluator.startStacks (.int (Int32.wrap x)) p).run E.machine.maxPoints p.size =
      ⟨answered p x (e.value x), p.size, none⟩ := by
    rw [answered, ← hvalue]
    exact hcompletes.run []
  rw [Evaluator.attempt, Stacks.run_eq_of_le (by rw [hrun]) (by rw [hrun]; rfl) hlimit, hrun]

end Expression

/-- Running the code of an expression computes its value modulo `2 ^ 32`, however it is grouped.
On the machine it works on top of any stacks, and takes as many steps as it has points. An
evaluator of integers that may take so many steps answers with the one integer in the 32-bit
range that is congruent to the value, and its input is still below. -/
theorem expressions_compute (e : Expression) :
    (∀ (maxPoints : Int) (s : Stacks) (x : Int) (item : Item),
      (∀ i ∈ s.input, i.IsNumber) → s.input.getLast? = some (.int x) → item.leaves = e.code →
      s.Completes maxPoints [item] item.size
        { s with integer := Int32.wrap (e.value x) :: s.integer }) ∧
    ∀ (E : Evaluator) (x : Int) (p : Program), E.problemType = .integer →
      Item.leavesOf p = e.code → p.size ≤ E.config.executionLimit →
      ∃ r, (∀ n, Int32.InRange n ∧ n ≡ e.value x [ZMOD 2 ^ 32] ↔ n = r) ∧
        (E.run p (.int x)).result = .ok ⟨some (.int r), p.size, false⟩ ∧
        (E.run p (.int x)).evaluator.machine.state =
          { Evaluator.inputStacks (.int (Int32.wrap x)) with
            integer := [r, Int32.wrap x], code := [.list p] } := by
  refine ⟨fun maxPoints s x item hin hinput hitem => e.completes_code hin hinput hitem,
    fun E x p hE hp hlimit => ?_⟩
  have hload : E.problemType.loadable (.int x) = .ok (.int (Int32.wrap x)) := by
    rw [hE]
    rfl
  have hattempt := e.attempt_code E x hp hlimit
  obtain ⟨hresult, -, hstate⟩ := Evaluator.run_of_finished hload (by rw [hattempt])
  rw [hattempt] at hresult hstate
  refine ⟨Int32.wrap (e.value x), fun n => Int32.inRange_modEq_iff, ?_, hstate⟩
  -- the limit cuts nothing off, since nothing is pending
  have hcut : E.cutOff ⟨Expression.answered p x (e.value x), p.size, none⟩ = false :=
    Bool.and_false _
  rw [hresult, hE, hcut]
  rfl

/-- The product of the input and an integer beyond the range, less the negative of another. -/
def productLess : Expression :=
  .binary .sub (.binary .mul .input (.literal 0x80000001)) (.neg (.literal 3))

/-- A program for it, with lists that do not follow its parts. -/
def productLessProgram : Program :=
  [.name "input.in0", .list [.int 0x80000001, .name "integer.*", .int 3],
    .list [.list [.name "integer.neg"], .name "integer.-"]]

theorem expressions_compute_productLess :
    Item.leavesOf productLessProgram = productLess.code ∧ productLess.value 3 = 0x180000006 ∧
    Stacks.run 100 10 { Stacks.empty with
        integer := [8], input := [.int 3], exec := [.list productLessProgram, .name "integer.+"] } =
      ⟨{ Stacks.empty with
          integer := [-0x7ffffffa, 8], input := [.int 3], exec := [.name "integer.+"] }, 10, none⟩ ∧
    ((Evaluator.new .integer .default).run productLessProgram (.int 3)).result =
      .ok ⟨some (.int (-0x7ffffffa)), 10, false⟩ := by
  have hleaves : Item.leavesOf productLessProgram = productLess.code := rfl
  obtain ⟨hmachine, hevaluator⟩ := expressions_compute productLess
  have hrun := hmachine 100 { Stacks.empty with integer := [8], input := [.int 3] } 3
    (.list productLessProgram) (List.forall_mem_singleton.mpr trivial) rfl
    (by rw [Item.leaves_list, hleaves])
  obtain ⟨r, hr, hresult, -⟩ :=
    hevaluator (.new .integer .default) 3 productLessProgram rfl hleaves (by decide)
  obtain rfl := (hr (-0x7ffffffa)).mp ⟨by decide, by decide⟩
  exact ⟨hleaves, rfl, hrun.run [.name "integer.+"], hresult⟩

end PushFitness
