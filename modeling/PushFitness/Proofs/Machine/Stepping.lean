import PushFitness.Machine.Run

/-!
# Runs as sequences of steps

A run is given with the number of its steps, and it stops where an item cannot be
executed. To speak about every state on the way it is better to take one step after
the other: `next` is what a run of one step leaves, and `after` repeats it, also past
an item that stopped a run, because whoever steps a machine may go on after that.

`run_eq_after` ties the two together, and `next_invariant` is how a property is shown
to last: it lists what a step can find on top of the exec stack, so that a proof
about all steps is one goal for each kind of item.
-/

namespace PushFitness.Stacks

variable {maxPoints : Int} {s : Stacks}

/-- The stacks after one more step. An item that cannot be executed is gone then, and
nothing else has changed. -/
def next (maxPoints : Int) (s : Stacks) : Stacks := (s.run maxPoints 1).state

def nextError? (maxPoints : Int) (s : Stacks) : Option MachineError := (s.run maxPoints 1).error?

def after (maxPoints : Int) (s : Stacks) : Nat → Stacks
  | 0 => s
  | n + 1 => (s.after maxPoints n).next maxPoints

/-! ## One step -/

theorem execute_name {n : String} {i : Instruction} (h : Instruction.ofName? n = .ok (some i)) :
    s.execute maxPoints (.name n) = .ok (s.apply maxPoints i) := by
  rw [execute, h]

theorem next_of_nil (h : s.exec = []) : s.next maxPoints = s := by
  simp only [next, run, runFrom, h]

theorem next_of_ok {item : Item} {exec : List Item} {t : Stacks} (h : s.exec = item :: exec)
    (ht : { s with exec := exec }.execute maxPoints item = .ok t) : s.next maxPoints = t := by
  simp only [next, run, runFrom, h, ht]

theorem next_of_error {item : Item} {exec : List Item} {e : MachineError}
    (h : s.exec = item :: exec) (he : { s with exec := exec }.execute maxPoints item = .error e) :
    s.next maxPoints = { s with exec := exec } := by
  simp only [next, run, runFrom, h, he]

theorem nextError?_of_nil (h : s.exec = []) : s.nextError? maxPoints = none := by
  simp only [nextError?, run, runFrom, h]

theorem nextError?_of_ok {item : Item} {exec : List Item} {t : Stacks}
    (h : s.exec = item :: exec) (ht : { s with exec := exec }.execute maxPoints item = .ok t) :
    s.nextError? maxPoints = none := by
  simp only [nextError?, run, runFrom, h, ht]

theorem nextError?_of_error {item : Item} {exec : List Item} {e : MachineError}
    (h : s.exec = item :: exec) (he : { s with exec := exec }.execute maxPoints item = .error e) :
    s.nextError? maxPoints = some e := by
  simp only [nextError?, run, runFrom, h, he]

theorem nextError?_eq_some_iff {e : MachineError} : s.nextError? maxPoints = some e ↔
    ∃ item exec, s.exec = item :: exec ∧
      { s with exec := exec }.execute maxPoints item = .error e := by
  constructor
  · intro h
    cases hs : s.exec with
    | nil =>
        rw [nextError?_of_nil hs] at h
        cases h
    | cons item exec =>
        refine ⟨item, exec, rfl, ?_⟩
        cases ht : { s with exec := exec }.execute maxPoints item with
        | ok t =>
            rw [nextError?_of_ok hs ht] at h
            cases h
        | error e' =>
            rw [nextError?_of_error hs ht] at h
            rw [Option.some.inj h]
  · rintro ⟨item, exec, hs, he⟩
    exact nextError?_of_error hs he

/-- What the next step leaves has a property if everything has it that a step can do
with the item on top. -/
theorem next_invariant {p : Stacks → Prop} (hnil : s.exec = [] → p s)
    (hdrop : ∀ item exec, s.exec = item :: exec → p { s with exec := exec })
    (hlist : ∀ items exec, s.exec = .list items :: exec → p { s with exec := items ++ exec })
    (happly : ∀ n i exec, s.exec = .name n :: exec → Instruction.ofName? n = .ok (some i) →
      p ({ s with exec := exec }.apply maxPoints i))
    (hname : ∀ n exec, s.exec = .name n :: exec → Instruction.ofName? n = .ok none →
      p { s with exec := exec, name := .name n :: s.name })
    (hint : ∀ n exec, s.exec = .int n :: exec →
      p { s with exec := exec, integer := Int32.wrap n :: s.integer })
    (hfloat : ∀ x exec, s.exec = .float x :: exec →
      p { s with exec := exec, float := x :: s.float })
    (hbool : ∀ b exec, s.exec = .bool b :: exec →
      p { s with exec := exec, boolean := b :: s.boolean }) :
    p (s.next maxPoints) := by
  cases h : s.exec with
  | nil =>
      rw [next_of_nil h]
      exact hnil h
  | cons item exec =>
      cases item with
      | list items => rw [next_of_ok h rfl]; exact hlist items exec h
      | int n => rw [next_of_ok h rfl]; exact hint n exec h
      | float x => rw [next_of_ok h rfl]; exact hfloat x exec h
      | bool b => rw [next_of_ok h rfl]; exact hbool b exec h
      | hole => rw [next_of_error h rfl]; exact hdrop .hole exec h
      | name n =>
          cases hn : Instruction.ofName? n with
          | error e =>
              have he : { s with exec := exec }.execute maxPoints (.name n) =
                  .error (.tooManyDigits e) := by simp only [execute, hn]
              rw [next_of_error h he]
              exact hdrop (.name n) exec h
          | ok found =>
              cases found with
              | none =>
                  have ht : { s with exec := exec }.execute maxPoints (.name n) =
                      .ok { s with exec := exec, name := .name n :: s.name } := by
                    simp only [execute, hn]
                  rw [next_of_ok h ht]
                  exact hname n exec h hn
              | some i =>
                  have ht : { s with exec := exec }.execute maxPoints (.name n) =
                      .ok ({ s with exec := exec }.apply maxPoints i) := by
                    simp only [execute, hn]
                  rw [next_of_ok h ht]
                  exact happly n i exec h hn

/-- A property that every step keeps lasts for any number of steps. -/
theorem after_invariant {p : Stacks → Prop} (hstart : p s)
    (hnext : ∀ t, p t → p (t.next maxPoints)) (n : Nat) : p (s.after maxPoints n) := by
  induction n with
  | zero => exact hstart
  | succ n ih => exact hnext _ ih

theorem after_of_nil (h : s.exec = []) (n : Nat) : s.after maxPoints n = s := by
  induction n with
  | zero => rfl
  | succ n ih => rw [after, ih, next_of_nil h]

/-- The first of several steps may be taken by itself. -/
theorem after_succ (n : Nat) :
    s.after maxPoints (n + 1) = (s.next maxPoints).after maxPoints n := by
  induction n with
  | zero => rfl
  | succ n ih => rw [after, ih, ← after]

theorem after_add (m n : Nat) :
    s.after maxPoints (m + n) = (s.after maxPoints m).after maxPoints n := by
  induction n with
  | zero => rfl
  | succ n ih => rw [← Nat.add_assoc, after, ih, ← after]

/-! ## Runs -/

/-- The count of steps that a run starts with is added to its own. -/
theorem runFrom_done (limit done : Nat) (s : Stacks) : s.runFrom maxPoints limit done =
    { s.run maxPoints limit with steps := (s.run maxPoints limit).steps + done } := by
  induction limit generalizing done s with
  | zero => simp only [run, runFrom, Nat.zero_add]
  | succ limit ih =>
      simp only [run, runFrom]
      split
      · simp only [Nat.zero_add]
      · split
        · next t _ =>
            rw [ih, ih (0 + 1)]
            simp only [Run.mk.injEq, true_and, and_true]
            omega
        · simp only [Nat.zero_add]

theorem run_of_nil (h : s.exec = []) (limit : Nat) : s.run maxPoints limit = ⟨s, 0, none⟩ := by
  cases limit with
  | zero => rfl
  | succ limit => simp only [run, runFrom, h]

theorem run_succ_of_ok {item : Item} {exec : List Item} {t : Stacks} (h : s.exec = item :: exec)
    (ht : { s with exec := exec }.execute maxPoints item = .ok t) (limit : Nat) :
    s.run maxPoints (limit + 1) =
      { t.run maxPoints limit with steps := (t.run maxPoints limit).steps + 1 } := by
  rw [run, runFrom]
  simp only [h, ht]
  rw [runFrom_done]

theorem run_succ_of_error {item : Item} {exec : List Item} {e : MachineError}
    (h : s.exec = item :: exec) (he : { s with exec := exec }.execute maxPoints item = .error e)
    (limit : Nat) : s.run maxPoints (limit + 1) = ⟨{ s with exec := exec }, 0, some e⟩ := by
  rw [run, runFrom]
  simp only [h, he]

/-- A run takes no more steps than its limit, and leaves the stacks as they are after
some number of steps within the limit. Without an error it leaves what is there when
the limit is used up. -/
theorem run_eq_after (limit : Nat) (s : Stacks) :
    (s.run maxPoints limit).steps ≤ limit ∧
      (∃ n ≤ limit, (s.run maxPoints limit).state = s.after maxPoints n) ∧
      ((s.run maxPoints limit).error? = none →
        (s.run maxPoints limit).state = s.after maxPoints limit) := by
  induction limit generalizing s with
  | zero => exact ⟨Nat.le_refl 0, ⟨0, Nat.le_refl 0, rfl⟩, fun _ => rfl⟩
  | succ limit ih =>
      cases h : s.exec with
      | nil =>
          rw [run_of_nil h, after_of_nil h]
          exact ⟨Nat.zero_le _, ⟨0, Nat.zero_le _, rfl⟩, fun _ => rfl⟩
      | cons item exec =>
          cases ht : { s with exec := exec }.execute maxPoints item with
          | error e =>
              rw [run_succ_of_error h ht]
              refine ⟨Nat.zero_le _, ⟨1, by omega, ?_⟩, fun hnone => by cases hnone⟩
              exact (next_of_error h ht).symm
          | ok t =>
              obtain ⟨hsteps, ⟨n, hn, hstate⟩, hall⟩ := ih t
              rw [run_succ_of_ok h ht]
              refine ⟨Nat.succ_le_succ hsteps, ⟨n + 1, by omega, ?_⟩, fun hnone => ?_⟩
              · rw [after_succ, next_of_ok h ht]
                exact hstate
              · rw [after_succ, next_of_ok h ht]
                exact hall hnone

theorem after_of_run {t : Stacks} {limit steps : Nat}
    (h : s.run maxPoints limit = ⟨t, steps, none⟩) : s.after maxPoints limit = t := by
  have hall : (s.run maxPoints limit).error? = none →
      (s.run maxPoints limit).state = s.after maxPoints limit := (run_eq_after limit s).2.2
  rw [h] at hall
  exact (hall rfl).symm

end PushFitness.Stacks
