import PushFitness.Proofs.Evaluation.Calls
import PushFitness.Proofs.Machine.Names
import PushFitness.Proofs.Machine.Untyped
import PushFitness.Proofs.Program.Size

/-!
# Evaluations keep the kinds of the stacks

An evaluation on the untyped machine starts with a number on a stack that was chosen by
the kind of the problem, and with a program nothing is known of. `kinds_are_kept` says what
its stacks hold after any number of steps and what can go wrong in the next one.

The kinds themselves come from the typed machine, which the untyped one follows step by
step. What is left to show by induction is `Safe`: integers stay in the range of 32 bits,
the names that are kept are no instructions, and nothing is pending that cannot be
executed. The depth of a stack is the one number that is pushed as it is, so the range is
kept only as long as no stack is too deep to be counted in it.
-/

namespace PushFitness

variable {maxPoints : Int} {s t : Stacks}

/-- What an item has to be on a stack. -/
def Slot.Holds : Slot → Item → Prop
  | integer, .int n => Int32.InRange n
  | float, .float _ => True
  | boolean, .bool _ => True
  | name, .name n => Instruction.ofName? n = .ok none
  | exec, _ | code, _ | input, _ => True
  | _, _ => False

/-! ## The untyped evaluation -/

def ProblemType.slot : ProblemType → Slot
  | integer => .integer
  | float => .float

namespace Untyped

/-- Empty stacks with a number loaded for a kind of problem, and a program. -/
def start (t : ProblemType) (v : Scalar) (program : Program) : Untyped :=
  let loaded := (add (fun _ => []) t.slot v.toItem).add .input v.toItem
  (loaded.add .code (.list program)).add .exec (.list program)

end Untyped

namespace Evaluator

/-- The untyped stacks after a number of steps of a program on a converted input. -/
def untypedAfter (e : Evaluator) (v : Scalar) (program : Program) (n : Nat) : Untyped :=
  (Untyped.start e.problemType v program).after e.machine.maxPoints n

end Evaluator

theorem ProblemType.loadable_integer {x v : Scalar} (h : loadable .integer x = .ok v) :
    ∃ n, v = .int (Int32.wrap n) := by
  cases x with
  | int n => exact ⟨n, (Except.ok.inj h).symm⟩
  | float y =>
      rw [loadable] at h
      cases hy : y.truncate? with
      | some n => rw [hy] at h; exact ⟨n, (Except.ok.inj h).symm⟩
      | none => rw [hy] at h; cases h

theorem ProblemType.loadable_float {x v : Scalar} (h : loadable .float x = .ok v) :
    ∃ y, v = .float y := by
  rw [loadable] at h
  cases hx : x.toDouble with
  | error err => rw [hx] at h; cases h
  | ok y => rw [hx] at h; exact ⟨y, (Except.ok.inj h).symm⟩

/-- A converted input is of the kind of its problem, so it is on the stack for its kind. -/
theorem Untyped.start_eq {t : ProblemType} {x v : Scalar} (h : t.loadable x = .ok v)
    (program : Program) :
    start t v program = (Evaluator.startStacks v program).items := by
  cases t with
  | integer =>
      obtain ⟨n, rfl⟩ := ProblemType.loadable_integer h
      exact funext fun slot => by cases slot <;> rfl
  | float =>
      obtain ⟨y, rfl⟩ := ProblemType.loadable_float h
      exact funext fun slot => by cases slot <;> rfl

/-! ## One step -/

/-- The names that instructions put into the lists they build. -/
def Stacks.ownNames : List String := ["exec.y", "exec.do*range", "integer.pop"]

/-- A property of leaves that holds of integers and of these names is kept on the exec stack:
no other leaves are ever made. -/
theorem ExecChange.forall_leaves {xs ys : List Item} (h : ExecChange maxPoints xs ys)
    {p : Item → Prop} (hint : ∀ n, p (.int n)) (hname : ∀ n ∈ Stacks.ownNames, p (.name n))
    (hxs : ∀ leaf ∈ Item.leavesOf xs, p leaf) : ∀ leaf ∈ Item.leavesOf ys, p leaf := by
  have hint' (n : Int) : ∀ leaf ∈ (Item.int n).leaves, p leaf := by
    simpa only [Item.leaves, List.forall_mem_singleton] using hint n
  have hname' {n : String} (hn : n ∈ Stacks.ownNames) : ∀ leaf ∈ (Item.name n).leaves, p leaf := by
    simpa only [Item.leaves_name, List.forall_mem_singleton] using hname n hn
  have hrange {body : Item} (first last : Int) (hbody : ∀ leaf ∈ body.leaves, p leaf) :
      ∀ leaf ∈ (Stacks.rangeItem first last body).leaves, p leaf := by
    simp only [Stacks.rangeItem, Item.forall_leaves_list, List.forall_mem_cons,
      List.not_mem_nil, false_implies, implies_true, and_true]
    exact ⟨hint' first, hint' last, hname' (by decide), hbody⟩
  simp only [Item.forall_leavesOf] at hxs ⊢
  cases h with
  | part h => exact fun item hitem => hxs item (h.subset hitem)
  | copy h => exact List.forall_mem_cons.mpr ⟨hxs _ h, hxs⟩
  | combine a b c rest =>
      simp only [List.forall_mem_cons, Item.forall_leaves_list, List.not_mem_nil, false_implies,
        implies_true, and_true] at hxs ⊢
      obtain ⟨ha, hb, hc, hrest⟩ := hxs
      exact ⟨ha, hc, ⟨hb, hc⟩, hrest⟩
  | again a rest =>
      simp only [List.forall_mem_cons, Item.forall_leaves_list, List.not_mem_nil, false_implies,
        implies_true, and_true] at hxs ⊢
      exact ⟨hxs.1, ⟨hname' (by decide), hxs.1⟩, hxs.2⟩
  | range first last body rest =>
      rw [List.forall_mem_cons] at hxs
      exact List.forall_mem_cons.mpr
        ⟨hxs.1, List.forall_mem_cons.mpr ⟨hrange first last hxs.1, hxs.2⟩⟩
  | @loop last body body' rest h =>
      rw [List.forall_mem_cons] at hxs
      have hbody : ∀ leaf ∈ body'.leaves, p leaf := by
        rcases h with rfl | rfl
        · exact hxs.1
        · cases body with
          | list items =>
              rw [Stacks.withoutIndex, Item.forall_leaves_list, List.forall_mem_cons]
              exact ⟨hname' (by decide), Item.forall_leaves_list.mp hxs.1⟩
          | int _ | float _ | bool _ | name _ | hole =>
              rw [Stacks.withoutIndex, Item.forall_leaves_list, List.forall_mem_cons,
                List.forall_mem_singleton]
              · exact ⟨hname' (by decide), hxs.1⟩
              · exact fun _ => Item.noConfusion
      exact List.forall_mem_cons.mpr ⟨hrange 0 last hbody, hxs.2⟩

namespace Stacks

/-- What steps keep of the stacks, apart from what their types say. -/
structure Safe (s : Stacks) : Prop where
  integer : ∀ n ∈ s.integer, Int32.InRange n
  name : ∀ item ∈ s.name, Slot.name.Holds item
  exec : ∀ leaf ∈ Item.leavesOf s.exec, leaf ≠ .hole

/-- No stack is too deep for its depth to be an integer of the machine. -/
def Countable (s : Stacks) : Prop := ∀ slot, (s.items slot).length < 2147483648

theorem Countable.pop {item : Item} {exec : List Item} (h : s.Countable)
    (hs : s.exec = item :: exec) : { s with exec := exec }.Countable := by
  intro slot
  have hslot := h slot
  cases slot with
  | exec =>
      rw [items, hs, List.length_cons] at hslot
      exact Nat.lt_of_succ_lt hslot
  | integer | float | boolean | code | name | input => exact hslot

theorem Countable.newInteger_inRange (h : s.Countable) (hs : ∀ n ∈ s.integer, Int32.InRange n)
    {n : Int} (hn : s.NewInteger n) : Int32.InRange n := by
  rcases hn with hn | ⟨on, rfl⟩ | rfl
  · exact hn hs
  · rw [← s.length_items]
    exact Int32.natCast_inRange (h on.slot)
  · exact Int32.natCast_inRange (h .input)

/-- All integers on their stack have 32 bits. -/
def IntegersInRange (s : Stacks) : Prop := ∀ n ∈ s.integer, Int32.InRange n

namespace IntegersInRange

theorem of_changed (h : s.IntegersInRange) (hchanged : s.Changed maxPoints t)
    (hone : s.input.length ≤ 1) (hcount : s.Countable) : t.IntegersInRange :=
  (hchanged.integer hone).forall_mem h fun _ hn => hcount.newInteger_inRange h hn

theorem next (h : s.IntegersInRange) (hin : s.OneInput) (hcount : s.Countable) :
    (s.next maxPoints).IntegersInRange := by
  apply next_invariant
  case happly =>
    intro n i exec hs _
    have hpopped : { s with exec := exec }.IntegersInRange := h
    have hchanged : Changed maxPoints { s with exec := exec } _ :=
      apply_changed (s := { s with exec := exec }) hin.number i
    exact hpopped.of_changed hchanged hin.single (hcount.pop hs)
  case hint =>
    intro n exec _
    exact List.forall_mem_cons.mpr ⟨Int32.wrap_inRange n, h⟩
  case hnil => exact fun _ => h
  case hname => exact fun _ _ _ _ => h
  case hdrop | hlist | hfloat | hbool => exact fun _ _ _ => h

theorem after (h : s.IntegersInRange) (hin : s.OneInput) (n : Nat)
    (hcount : ∀ k < n, (s.after maxPoints k).Countable) :
    (s.after maxPoints n).IntegersInRange := by
  induction n with
  | zero => exact h
  | succ n ih =>
      have hbefore := ih fun k hk => hcount k (by omega)
      exact hbefore.next (hin.after n) (hcount n (by omega))

end IntegersInRange

namespace Safe

theorem pop {item : Item} {exec : List Item} (h : s.Safe) (hs : s.exec = item :: exec) :
    { s with exec := exec }.Safe ∧ ∀ leaf ∈ item.leaves, leaf ≠ .hole := by
  have hexec := h.exec
  rw [hs, Item.leavesOf_cons] at hexec
  exact ⟨⟨h.integer, h.name, fun leaf hleaf => hexec leaf (List.mem_append_right _ hleaf)⟩,
    fun leaf hleaf => hexec leaf (List.mem_append_left _ hleaf)⟩

theorem of_changed (h : s.Safe) (hchanged : s.Changed maxPoints t) (hone : s.input.length ≤ 1)
    (hcount : s.Countable) : t.Safe where
  integer := IntegersInRange.of_changed h.integer hchanged hone hcount
  name := hchanged.name.forall_mem h.name h.name
  exec := hchanged.exec.forall_leaves (fun _ => Item.noConfusion) (fun _ _ => Item.noConfusion)
    h.exec

theorem next (h : s.Safe) (hin : s.OneInput) (hcount : s.Countable) :
    (s.next maxPoints).Safe := by
  apply next_invariant
  case hnil => exact fun _ => h
  case hdrop => exact fun item exec hs => (h.pop hs).1
  case hlist =>
    intro items exec hs
    obtain ⟨hpopped, hitems⟩ := h.pop hs
    rw [Item.leaves_list] at hitems
    refine { hpopped with exec := ?_ }
    rw [Item.leavesOf_append]
    exact List.forall_mem_append.mpr ⟨hitems, hpopped.exec⟩
  case happly =>
    intro n i exec hs _
    have hchanged : Changed maxPoints { s with exec := exec } _ :=
      apply_changed (s := { s with exec := exec }) hin.number i
    exact (h.pop hs).1.of_changed hchanged hin.single (hcount.pop hs)
  case hname =>
    intro n exec hs hn
    have hpopped := (h.pop hs).1
    exact { hpopped with name := List.forall_mem_cons.mpr ⟨hn, hpopped.name⟩ }
  case hint =>
    intro n exec hs
    have hpopped := (h.pop hs).1
    exact { hpopped with
      integer := List.forall_mem_cons.mpr ⟨Int32.wrap_inRange n, hpopped.integer⟩ }
  case hfloat | hbool =>
    intro _ exec hs
    have hpopped := (h.pop hs).1
    exact { hpopped with }

end Safe

/-- What cannot be executed: a place without a value, and a name with too many digits. -/
theorem execute_eq_error_iff {item : Item} {e : MachineError} :
    s.execute maxPoints item = .error e ↔ (item = .hole ∧ e = .notExecutable) ∨
      ∃ name count, item = .name name ∧ Instruction.Overlong name count ∧
        e = .tooManyDigits ⟨count⟩ := by
  cases item with
  | list _ | int _ | float _ | bool _ => simp [execute]
  | hole => simp [execute, eq_comm]
  | name n =>
      have hlookup (count : Nat) := @Instruction.ofName?_eq_error_iff n ⟨count⟩
      rw [execute]
      cases hof : Instruction.ofName? n with
      | error d =>
          constructor
          · intro h
            cases h
            exact .inr ⟨n, d.count, rfl, Instruction.ofName?_eq_error_iff.mp hof, rfl⟩
          · rintro (⟨h, -⟩ | ⟨name, count, hname, hlong, rfl⟩)
            · cases h
            · cases hname
              have hsame := (hlookup count).mpr hlong
              rw [hof] at hsame
              cases hsame
              rfl
      | ok found =>
          constructor
          · intro h
            cases found <;> cases h
          · rintro (⟨h, -⟩ | ⟨name, count, hname, hlong, -⟩)
            · cases h
            · cases hname
              have hsame := (hlookup count).mpr hlong
              rw [hof] at hsame
              cases hsame

/-- The one thing that can stop the next step of a safe machine. -/
theorem Safe.stopped_iff (h : s.Safe) {e : MachineError} :
    s.nextError? maxPoints = some e ↔ ∃ name exec count, s.exec = .name name :: exec ∧
      Instruction.Overlong name count ∧ e = .tooManyDigits ⟨count⟩ := by
  rw [nextError?_eq_some_iff]
  constructor
  · rintro ⟨item, exec, hs, he⟩
    rcases execute_eq_error_iff.mp he with ⟨rfl, -⟩ | ⟨name, count, rfl, hlong, rfl⟩
    · exact absurd rfl ((h.pop hs).2 .hole (by simp [Item.leaves]))
    · exact ⟨name, exec, count, hs, hlong, rfl⟩
  · rintro ⟨name, exec, count, hs, hlong, rfl⟩
    exact ⟨.name name, exec, hs, execute_eq_error_iff.mpr (.inr ⟨name, count, rfl, hlong, rfl⟩)⟩

/-! ## Any number of steps -/

theorem Safe.after (h : s.Safe) (hin : s.OneInput) (n : Nat)
    (hcount : ∀ k < n, (s.after maxPoints k).Countable) : (s.after maxPoints n).Safe := by
  induction n with
  | zero => exact h
  | succ n ih =>
      have hsafe := ih fun k hk => hcount k (by omega)
      exact hsafe.next (hin.after n) (hcount n (by omega))

theorem Safe.holds (h : s.Safe) (slot : Slot) : ∀ item ∈ s.items slot, slot.Holds item := by
  cases slot with
  | integer => exact List.forall_mem_map.mpr h.integer
  | float | boolean => exact List.forall_mem_map.mpr fun _ _ => trivial
  | name => exact h.name
  | exec | code | input => exact fun _ _ => trivial

end Stacks

/-! ## Evaluations -/

theorem Evaluator.startStacks_inRange {t : ProblemType} {x v : Scalar} (h : t.loadable x = .ok v)
    (program : Program) : (startStacks v program).IntegersInRange := by
  cases t with
  | integer =>
      obtain ⟨n, rfl⟩ := ProblemType.loadable_integer h
      exact List.forall_mem_singleton.mpr (Int32.wrap_inRange n)
  | float =>
      obtain ⟨y, rfl⟩ := ProblemType.loadable_float h
      exact List.forall_mem_nil _

theorem Evaluator.startStacks_safe {t : ProblemType} {x v : Scalar} (h : t.loadable x = .ok v)
    {program : Program} (hprogram : ∀ leaf ∈ Item.leavesOf program, leaf ≠ .hole) :
    (startStacks v program).Safe := by
  rw [← Item.leavesOf_singleton] at hprogram
  refine ⟨startStacks_inRange h program, ?_, ?_⟩
  · cases v <;> exact List.forall_mem_nil _
  · cases v <;> exact hprogram

/-- After any number of steps in which no stack became too deep to be counted, every stack
of the untyped machine holds what it is for: 32-bit integers, doubles, truth values, and
names that are no instructions. The loaded number is still the only input, and the next
step goes wrong only if its name has too many digits to be looked up. All the time the
typed stacks hold the same items. -/
theorem kinds_are_kept (e : Evaluator) (program : Program) (x v : Scalar) (n : Nat)
    (hprogram : ∀ leaf ∈ Item.leavesOf program, leaf ≠ .hole)
    (hload : e.problemType.loadable x = .ok v)
    (hcount : ∀ k ≤ n, ∀ slot, (e.untypedAfter v program k slot).length < 2147483648) :
    (∀ slot, ∀ item ∈ e.untypedAfter v program n slot, slot.Holds item) ∧
    e.untypedAfter v program n .input = [v.toItem] ∧
    (∀ fault, ((e.untypedAfter v program n).next e.machine.maxPoints).2 = some fault ↔
      ∃ name exec count, e.untypedAfter v program n .exec = .name name :: exec ∧
        Instruction.Overlong name count ∧ fault = .machine (.tooManyDigits ⟨count⟩)) ∧
    ∃ loaded, e.load x = (loaded, .ok ()) ∧
      e.untypedAfter v program n = (loaded.stacksAfter program n).items := by
  have hitems (k : Nat) : e.untypedAfter v program k =
      ((Evaluator.startStacks v program).after e.machine.maxPoints k).items := by
    rw [Evaluator.untypedAfter, Untyped.start_eq hload, Untyped.after_items]
  simp only [hitems] at hcount ⊢
  have hin := Evaluator.startStacks_oneInput v program
  have hsafe := (Evaluator.startStacks_safe hload hprogram).after hin n fun k hk =>
    hcount k (by omega)
  refine ⟨hsafe.holds, ?_, fun fault => ?_, _, Evaluator.load_of_ok hload, rfl⟩
  · exact (Stacks.after_input _ hin.number n).trans (Evaluator.startStacks_input v program)
  · simp only [Untyped.next_items, Option.map_eq_some_iff, hsafe.stopped_iff]
    constructor
    · rintro ⟨_, ⟨name, exec, count, hexec, hlong, rfl⟩, rfl⟩
      exact ⟨name, exec, count, hexec, hlong, rfl⟩
    · rintro ⟨name, exec, count, hexec, hlong, rfl⟩
      exact ⟨_, ⟨name, exec, count, hexec, hlong, rfl⟩, rfl⟩

/-- A program that counts its input, keeps a name, and adds to the number that was loaded. -/
def counting : Program := [.name "input.stackdepth", .name "x", .name "integer.+"]

theorem kinds_are_kept_counting :
    (∀ leaf ∈ Item.leavesOf counting, leaf ≠ .hole) ∧
    ProblemType.loadable .integer (.int 3000000000) = .ok (.int (-1294967296)) ∧
    (∀ k ≤ 4, ∀ slot, ((Evaluator.new .integer .default).untypedAfter (.int (-1294967296))
      counting k slot).length < 2147483648) ∧
    ∀ slot, ∀ item ∈ (Evaluator.new .integer .default).untypedAfter (.int (-1294967296))
      counting 4 slot, slot.Holds item := by
  have hprogram : ∀ leaf ∈ Item.leavesOf counting, leaf ≠ .hole := by
    simp [counting, Item.leavesOf, Item.leaves]
  have hload : ProblemType.loadable .integer (.int 3000000000) = .ok (.int (-1294967296)) := rfl
  have hcount : ∀ k ≤ 4, ∀ slot, ((Evaluator.new .integer .default).untypedAfter
      (.int (-1294967296)) counting k slot).length < 2147483648 := by decide +kernel
  have hkept := kinds_are_kept (.new .integer .default) counting _ _ 4 hprogram hload hcount
  exact ⟨hprogram, hload, hcount, hkept.1⟩

end PushFitness
