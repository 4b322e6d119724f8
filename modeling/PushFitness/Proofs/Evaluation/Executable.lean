import PushFitness.Proofs.Evaluation.TypeSafety

/-!
# Programs that no item stops

A run is stopped by a place without a value, or by a name with too many digits to be looked
up. Both are leaves of the program: the leaves that instructions add are integers and three
names that are looked up easily. So a program without such leaves is run to its end or to its
limit, and an evaluation of it has an outcome as soon as its input can be loaded.
-/

namespace PushFitness

variable {maxPoints : Int} {s : Stacks}

def Item.Executable : Item → Prop
  | .hole => False
  | .name n => ∀ count, ¬ Instruction.Overlong n count
  | .int _ | .float _ | .bool _ | .list _ => True

instance : DecidablePred Item.Executable
  | .hole => isFalse id
  | .name n => inferInstanceAs (Decidable (∀ count, ¬ Instruction.Overlong n count))
  | .int _ | .float _ | .bool _ | .list _ => isTrue trivial

namespace Stacks

theorem ownNames_executable : ∀ n ∈ ownNames, (Item.name n).Executable := by decide +kernel

/-- Nothing that cannot be executed is pending. -/
def Unstoppable (s : Stacks) : Prop := ∀ leaf ∈ Item.leavesOf s.exec, leaf.Executable

namespace Unstoppable

theorem pop {item : Item} {exec : List Item} (h : s.Unstoppable) (hs : s.exec = item :: exec) :
    { s with exec := exec }.Unstoppable ∧ ∀ leaf ∈ item.leaves, leaf.Executable := by
  rw [Unstoppable, hs, Item.leavesOf_cons] at h
  obtain ⟨hitem, hexec⟩ := List.forall_mem_append.mp h
  exact ⟨hexec, hitem⟩

theorem next (h : s.Unstoppable) (hin : ∀ item ∈ s.input, item.IsNumber) :
    (s.next maxPoints).Unstoppable := by
  apply next_invariant
  case hnil => exact fun _ => h
  case hdrop => exact fun item exec hs => (h.pop hs).1
  case hlist =>
    intro items exec hs
    obtain ⟨hpopped, hitems⟩ := h.pop hs
    rw [Item.leaves_list] at hitems
    rw [Unstoppable, Item.leavesOf_append]
    exact List.forall_mem_append.mpr ⟨hitems, hpopped⟩
  case happly =>
    intro n i exec hs _
    have hchanged : Changed maxPoints { s with exec := exec } _ :=
      apply_changed (s := { s with exec := exec }) hin i
    exact hchanged.exec.forall_leaves (fun _ => trivial) ownNames_executable (h.pop hs).1
  case hname | hint | hfloat | hbool =>
    intros
    exact (h.pop ‹_›).1

theorem execute_ok {item : Item} {exec : List Item} (h : s.Unstoppable)
    (hs : s.exec = item :: exec) (maxPoints : Int) :
    ∃ t, { s with exec := exec }.execute maxPoints item = .ok t := by
  cases ht : { s with exec := exec }.execute maxPoints item with
  | ok t => exact ⟨t, rfl⟩
  | error e =>
      have hitem := (h.pop hs).2
      rcases execute_eq_error_iff.mp ht with ⟨rfl, -⟩ | ⟨name, count, rfl, hlong, -⟩
      · exact (hitem .hole (by simp [Item.leaves])).elim
      · exact absurd hlong (hitem (.name name) (by simp [Item.leaves_name]) count)

theorem run_error? (h : s.Unstoppable) (hin : ∀ item ∈ s.input, item.IsNumber)
    (maxPoints : Int) (limit : Nat) : (s.run maxPoints limit).error? = none := by
  induction limit generalizing s with
  | zero => rfl
  | succ limit ih =>
      cases hs : s.exec with
      | nil => rw [run_of_nil hs]
      | cons item exec =>
          obtain ⟨t, ht⟩ := h.execute_ok hs maxPoints
          rw [run_succ_of_ok hs ht, ← next_of_ok hs ht]
          refine ih (h.next hin) ?_
          rw [next_input maxPoints hin]
          exact hin

end Unstoppable

end Stacks

/-- A program whose leaves can all be executed has an outcome on every input that can be
loaded. -/
theorem Evaluator.run_ok {e : Evaluator} {program : Program} {input v : Scalar}
    (hload : e.problemType.loadable input = .ok v)
    (hprogram : ∀ leaf ∈ Item.leavesOf program, leaf.Executable) :
    ∃ o, (e.run program input).result = .ok o := by
  have hstart : (startStacks v program).Unstoppable := by
    rw [← Item.leavesOf_singleton] at hprogram
    cases v with
    | int _ | float _ => exact hprogram
  have hnone := hstart.run_error? (startStacks_isNumber v program) e.machine.maxPoints
    e.config.executionLimit
  exact ⟨_, (run_of_finished hload hnone).1⟩

end PushFitness
