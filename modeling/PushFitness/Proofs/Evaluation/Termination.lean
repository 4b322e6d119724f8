import PushFitness.Proofs.Evaluation.Calls
import PushFitness.Proofs.Machine.Names
import PushFitness.Proofs.Program.Size

/-!
# Programs that end by themselves

A run ends when nothing is left to execute, and the items left may become more while it
goes on. What they cannot do without one of seven instructions is to get more points:
a step takes one point off the exec stack, namely the list it opens or the leaf it
executes, and the instruction at that leaf reorders the rest or drops some of it
(`apply_exec_subperm`). So the points of the pending items bound the steps that are still
to come, and a program runs for no more steps than it has points.

If nothing is dropped either, every step takes exactly one point (`apply_exec_perm`), and
the bound is the number of steps. The instructions are told by their names here, because
it is a condition on the text of a program: the leaves that are pending stay leaves of
the program (`execute_shrinks`).
-/

namespace PushFitness

variable {maxPoints : Int} {s : Stacks}

/-! ## Instructions and the pending items -/

namespace Instruction

/-- Whether an instruction can leave more points to be executed than it found. -/
def grows : Instruction → Bool
  | .move m .exec => m.copies
  | .moveAt m .exec => m.copies
  | .combinatorS | .combinatorY | .doRange | .doTimes | .doCount => true
  | _ => false

/-- Whether an instruction can drop what is still to be executed. -/
def discards : Instruction → Bool
  | .move m .exec => !m.permutes
  | .quote | .branch | .combinatorK => true
  | _ => false

def growthNames : List String :=
  ["exec.dup", "exec.yankdup", "exec.s", "exec.y", "exec.do*range", "exec.do*times",
    "exec.do*count"]

def discardNames : List String := ["exec.pop", "exec.flush", "exec.if", "exec.k", "code.quote"]

theorem table_growthNames :
    ∀ entry ∈ table, entry.2.grows = true → entry.1 ∈ growthNames := by decide +kernel

theorem table_discardNames : ∀ entry ∈ table, entry.2.grows = false →
    entry.2.discards = true → entry.1 ∈ discardNames := by decide +kernel

theorem grows_eq_false {name : String} {i : Instruction} (h : ofName? name = .ok (some i))
    (hname : name ∉ growthNames) : i.grows = false := by
  rcases ofName?_eq_some h with htable | ⟨n, rfl⟩
  · refine Bool.eq_false_iff.mpr fun hgrows => hname ?_
    exact table_growthNames (name, i) htable hgrows
  · rfl

theorem discards_eq_false {name : String} {i : Instruction} (h : ofName? name = .ok (some i))
    (hgrowth : name ∉ growthNames) (hname : name ∉ discardNames) : i.discards = false := by
  have hgrows := grows_eq_false h hgrowth
  rcases ofName?_eq_some h with htable | ⟨n, rfl⟩
  · refine Bool.eq_false_iff.mpr fun hdiscards => hname ?_
    exact table_discardNames (name, i) htable hgrows hdiscards
  · rfl

end Instruction

namespace Stacks

theorem rearrange_exec_of_ne (move : {α : Type} → List α → List α) {on : StackName}
    (h : on ≠ .exec) : (s.rearrange move on).exec = s.exec := by
  cases on with
  | exec => exact absurd rfl h
  | integer | float | boolean | code | name => rfl

theorem moveAt_exec (m : DepthMove) (on : StackName) : (s.moveAt m on).exec = s.exec ∨
    on = .exec ∧ ∃ depth, (s.moveAt m on).exec = m.apply depth s.exec := by
  rcases moveAt_cases s m on with h | ⟨depth, rest, -, h⟩
  · rw [h]
    exact .inl rfl
  · rw [h]
    by_cases hon : on = .exec
    · subst hon
      exact .inr ⟨rfl, depth, rfl⟩
    · exact .inl (rearrange_exec_of_ne _ hon)

/-- Without growth an instruction leaves part of what was pending. -/
theorem apply_exec_subperm {i : Instruction} (h : i.grows = false)
    (hin : ∀ item ∈ s.input, item.IsNumber) :
    (s.apply maxPoints i).exec.Subperm s.exec := by
  cases hi : i.computes with
  | true => rw [(apply_computed hi hin).exec]
  | false =>
      cases i with
      | move m on =>
          by_cases hon : on = .exec
          · subst hon
            exact m.apply_subperm h s.exec
          · rw [apply, rearrange_exec_of_ne _ hon]
      | moveAt m on =>
          rcases moveAt_exec m on with heq | ⟨rfl, depth, heq⟩
          · rw [apply, heq]
          · rw [apply, heq]
            exact (m.apply_perm h depth s.exec).subperm
      | quote =>
          rw [apply]
          split
          · next item exec hs => exact rest_subperm hs
          · exact .refl _
      | branch =>
          rw [apply]
          split
          · next condition booleans ifTrue ifFalse exec hb hs =>
              exact hs ▸ branch_subperm condition ifTrue ifFalse exec
          · exact .refl _
      | combinatorK =>
          rw [apply]
          split
          · next a b exec hs =>
              exact hs ▸ skip_subperm a b exec
          · exact .refl _
      | combinatorS | combinatorY | doRange | doTimes | doCount => exact Bool.noConfusion h
      | _ => exact Bool.noConfusion hi

/-- If nothing is dropped either, an instruction leaves all that was pending. -/
theorem apply_exec_perm {i : Instruction} (hgrows : i.grows = false)
    (hdiscards : i.discards = false) (hin : ∀ item ∈ s.input, item.IsNumber) :
    (s.apply maxPoints i).exec.Perm s.exec := by
  cases hi : i.computes with
  | true => rw [(apply_computed hi hin).exec]
  | false =>
      cases i with
      | move m on =>
          by_cases hon : on = .exec
          · subst hon
            rw [Instruction.discards, Bool.not_eq_false'] at hdiscards
            exact m.apply_perm hdiscards s.exec
          · rw [apply, rearrange_exec_of_ne _ hon]
      | moveAt m on =>
          rcases moveAt_exec m on with heq | ⟨rfl, depth, heq⟩
          · rw [apply, heq]
          · rw [apply, heq]
            exact m.apply_perm hgrows depth s.exec
      | quote | branch | combinatorK => exact Bool.noConfusion hdiscards
      | combinatorS | combinatorY | doRange | doTimes | doCount => exact Bool.noConfusion hgrows
      | _ => exact Bool.noConfusion hi

end Stacks

/-! ## One step -/

/-- A leaf that can be executed and does not stand for one of the seven instructions. -/
def Item.Shrinks : Item → Prop
  | .hole => False
  | .name n => n ∉ Instruction.growthNames ∧ ∀ count, ¬ Instruction.Overlong n count
  | .int _ | .float _ | .bool _ | .list _ => True

instance : DecidablePred Item.Shrinks
  | .hole => isFalse id
  | .name _ => inferInstanceAs (Decidable (_ ∧ _))
  | .int _ | .float _ | .bool _ | .list _ => isTrue trivial

/-- A leaf that does not stand for an instruction that can drop pending items. -/
def Item.Keeps : Item → Prop
  | .name n => n ∉ Instruction.discardNames
  | .hole | .int _ | .float _ | .bool _ | .list _ => True

instance : DecidablePred Item.Keeps
  | .name _ => inferInstanceAs (Decidable (¬ _))
  | .hole | .int _ | .float _ | .bool _ | .list _ => isTrue trivial

namespace Stacks

/-- What the execution of an item leaves of the pending items, of which `item` was the first:
one point less, or fewer points if items can be dropped, and no other leaves. -/
structure Shrunk (item : Item) (s t : Stacks) : Prop where
  points : Item.sizes t.exec + 1 ≤ item.size + Item.sizes s.exec
  exact_points : (∀ leaf ∈ item.leaves, leaf.Keeps) →
    Item.sizes t.exec + 1 = item.size + Item.sizes s.exec
  leaves : Item.leavesOf t.exec ⊆ Item.leavesOf (item :: s.exec)
  input : t.input = s.input

theorem Shrunk.ofLeaf {item : Item} {t : Stacks} (hsize : item.size = 1) (hexec : t.exec = s.exec)
    (hinput : t.input = s.input) : Shrunk item s t where
  points := by rw [hexec, hsize]; omega
  exact_points _ := by rw [hexec, hsize]; omega
  leaves := by
    rw [hexec, Item.leavesOf_cons]
    exact List.subset_append_right _ _
  input := hinput

/-- What one step does to what is pending. -/
theorem execute_shrinks {item : Item} (hleaves : ∀ leaf ∈ item.leaves, leaf.Shrinks)
    (hin : ∀ i ∈ s.input, i.IsNumber) :
    ∃ t, s.execute maxPoints item = .ok t ∧ Shrunk item s t := by
  cases item with
  | list items =>
      refine ⟨_, rfl, ?_, fun _ => ?_, ?_, rfl⟩
      · simp only [Item.sizes_append, Item.size_list]
        omega
      · simp only [Item.sizes_append, Item.size_list]
        omega
      · rw [Item.leavesOf_append, Item.leavesOf_cons, Item.leaves_list]
        exact List.Subset.refl _
  | int _ | float _ | bool _ => exact ⟨_, rfl, .ofLeaf (by rw [Item.size]) rfl rfl⟩
  | hole => exact (hleaves .hole (by simp [Item.leaves])).elim
  | name n =>
      have hn : (Item.name n).Shrinks := hleaves (.name n) (by rw [Item.leaves_name]; simp)
      obtain ⟨hgrowth, hshort⟩ := hn
      have hsize : (Item.name n).size = 1 := by rw [Item.size]
      cases hof : Instruction.ofName? n with
      | error e => exact absurd (Instruction.ofName?_eq_error_iff.mp hof) (hshort e.count)
      | ok found =>
          cases found with
          | none =>
              refine ⟨{ s with name := .name n :: s.name }, by rw [execute, hof], ?_⟩
              exact .ofLeaf hsize rfl rfl
          | some i =>
              have hgrows := Instruction.grows_eq_false hof hgrowth
              have hpart : (s.apply maxPoints i).exec.Subperm s.exec :=
                apply_exec_subperm hgrows hin
              refine ⟨s.apply maxPoints i, by rw [execute, hof], ?_, fun hkeeps => ?_, ?_, ?_⟩
              · have hle := Item.sizes_subperm hpart
                omega
              · have hname : n ∉ Instruction.discardNames :=
                  hkeeps (.name n) (by rw [Item.leaves_name]; simp)
                have hdiscards := Instruction.discards_eq_false hof hgrowth hname
                rw [Item.sizes_perm (apply_exec_perm hgrows hdiscards hin), hsize, Nat.add_comm]
              · rw [Item.leavesOf_cons]
                exact List.subset_append_of_subset_right _ (Item.leavesOf_subset hpart.subset)
              · have hchanged : s.Changed maxPoints _ := apply_changed hin i
                exact hchanged.input

/-! ## Whole runs -/

/-- A run comes to its end within as many steps as points are pending. The induction is on
a number of points that covers them. -/
theorem run_ends {points : Nat} (hpoints : Item.sizes s.exec ≤ points)
    (hleaves : ∀ leaf ∈ Item.leavesOf s.exec, leaf.Shrinks)
    (hin : ∀ i ∈ s.input, i.IsNumber) :
    ∃ t steps, (∀ limit, Item.sizes s.exec ≤ limit →
        s.run maxPoints limit = ⟨t, steps, none⟩) ∧ t.exec = [] ∧
      steps ≤ Item.sizes s.exec ∧
      ((∀ leaf ∈ Item.leavesOf s.exec, leaf.Keeps) → steps = Item.sizes s.exec) := by
  induction points generalizing s with
  | zero =>
      have hexec : s.exec = [] := by
        cases hs : s.exec with
        | nil => rfl
        | cons item exec =>
            have hpos := Item.size_pos item
            rw [hs, Item.sizes_cons] at hpoints
            omega
      exact ⟨s, 0, fun limit _ => run_of_nil hexec limit, hexec, Nat.zero_le _,
        fun _ => by rw [hexec, Item.sizes_nil]⟩
  | succ points ih =>
      cases hs : s.exec with
      | nil =>
          exact ⟨s, 0, fun limit _ => run_of_nil hs limit, hs, Nat.zero_le _,
            fun _ => by rw [Item.sizes_nil]⟩
      | cons item exec =>
          rw [hs] at hpoints hleaves
          rw [Item.leavesOf_cons] at hleaves
          obtain ⟨t, ht, hshrunk⟩ : ∃ t, { s with exec := exec }.execute maxPoints item = .ok t ∧
              Shrunk item { s with exec := exec } t :=
            execute_shrinks (s := { s with exec := exec })
              (fun leaf h => hleaves leaf (List.mem_append_left _ h)) hin
          have hsmaller := hshrunk.points
          simp only [← Item.sizes_cons] at hsmaller
          -- the leaves of `t` were leaves of `s`, so the rest of the run is a run of the same kind
          obtain ⟨u, steps, hrun, hend, hle, hexact⟩ := ih (s := t) (by omega)
            (fun leaf h => hleaves leaf (Item.leavesOf_cons item exec ▸ hshrunk.leaves h))
            (by rw [hshrunk.input]; exact hin)
          refine ⟨u, steps + 1, fun limit hlimit => ?_, hend, by omega, fun hkeeps => ?_⟩
          · obtain ⟨limit, rfl⟩ : ∃ k, limit = k + 1 := ⟨limit - 1, by omega⟩
            rw [run_succ_of_ok hs ht, hrun limit (by omega)]
          · rw [Item.leavesOf_cons] at hkeeps
            have hitem := hshrunk.exact_points fun leaf h =>
              hkeeps leaf (List.mem_append_left _ h)
            have hrest := hexact fun leaf h =>
              hkeeps leaf (Item.leavesOf_cons item exec ▸ hshrunk.leaves h)
            rw [Item.sizes_cons]
            simp only at hitem
            omega

theorem load_run_ends (maxPoints : Int) {program : Program} (hexec : s.exec = [])
    (hin : ∀ i ∈ s.input, i.IsNumber)
    (hleaves : ∀ leaf ∈ Item.leavesOf program, leaf.Shrinks) :
    ∃ t steps, (∀ limit, program.size ≤ limit →
        (s.load program).run maxPoints limit = ⟨t, steps, none⟩) ∧ t.exec = [] ∧
      steps ≤ program.size ∧
      ((∀ leaf ∈ Item.leavesOf program, leaf.Keeps) → steps = program.size) := by
  have hstart : (s.load program).exec = [.list program] := by rw [load, hexec]
  have hsize : Item.sizes (s.load program).exec = program.size := by
    rw [hstart, Item.sizes_cons, Item.sizes_nil, Program.size, Nat.add_zero]
  have hsame : Item.leavesOf (s.load program).exec = Item.leavesOf program := by
    rw [hstart, Item.leavesOf_singleton]
  rw [← hsame] at hleaves ⊢
  rw [← hsize]
  exact run_ends (Nat.le_refl _) hleaves hin

end Stacks

/-- A program none of whose leaves can leave more to be executed runs to its end without
a limit, within as many steps as it has points. It takes exactly as many if none of its
leaves can drop anything. So no evaluator whose limit covers its points cuts it off. -/
theorem ends_within_points (m : Machine) (program : Program) (maxSteps : Int)
    (hexec : m.state.exec = []) (hin : ∀ item ∈ m.state.input, item.IsNumber)
    (hlimit : maxSteps < 0) (hleaves : ∀ leaf ∈ Item.leavesOf program, leaf.Shrinks) :
    (∃ m' steps, (∀ fuel, program.size ≤ fuel →
        m.execute? fuel (.ofInt maxSteps) program = some (m', .ok steps)) ∧
      m'.state.exec = [] ∧ steps ≤ program.size ∧
      ((∀ leaf ∈ Item.leavesOf program, leaf.Keeps) → steps = program.size)) ∧
    ∀ (e : Evaluator) (input : Scalar), program.size ≤ e.config.executionLimit →
      (e.run program input).records = [] ∧
      ((∃ err, e.problemType.loadable input = .error err ∧
          (e.run program input).result = .error err) ∨
        ∃ o, (e.run program input).result = .ok o ∧ o.exhausted = false ∧
          o.steps ≤ program.size ∧
          ((∀ leaf ∈ Item.leavesOf program, leaf.Keeps) → o.steps = program.size)) := by
  constructor
  · obtain ⟨t, steps, hrun, hend, hle, hexact⟩ :=
      Stacks.load_run_ends m.maxPoints hexec hin hleaves
    refine ⟨⟨t, m.maxPoints, m.totalSteps + steps, m.executions + 1⟩, steps, fun fuel hfuel => ?_,
      hend, hle, hexact⟩
    have hunlimited : StepLimit.ofInt maxSteps = .unlimited := if_pos hlimit
    rw [hunlimited]
    simp only [Machine.execute?, Machine.step?, Machine.step, Machine.load, hrun fuel hfuel,
      Machine.finished, hend, List.isEmpty_nil, if_true]
  · intro e input hcovers
    cases hv : e.problemType.loadable input with
    | error err =>
        obtain ⟨hresult, hrecords, -⟩ := Evaluator.run_of_unloadable program hv
        exact ⟨hrecords, .inl ⟨err, rfl, hresult⟩⟩
    | ok v =>
        have hempty : (Evaluator.inputStacks v).exec = [] := by cases v <;> rfl
        obtain ⟨t, steps, hrun, hend, hle, hexact⟩ := Stacks.load_run_ends e.machine.maxPoints
          hempty (Evaluator.startStacks_isNumber v program) hleaves
        have hattempt : e.attempt program v = ⟨t, steps, none⟩ := hrun _ hcovers
        have hcut : e.cutOff (e.attempt program v) = false := by
          simp only [Evaluator.cutOff, hattempt, hend, List.isEmpty_nil, Bool.not_true,
            Bool.and_false]
        obtain ⟨hresult, hrecords, -⟩ := Evaluator.run_of_finished hv (by rw [hattempt])
        refine ⟨by rw [hrecords, hcut]; rfl, .inr ⟨_, hresult, hcut, ?_, fun hkeeps => ?_⟩⟩
        · rw [hattempt]
          exact hle
        · rw [hattempt]
          exact hexact hkeeps

/-- A program of nine points that reorders what is pending. -/
def reordering : Program :=
  [.name "exec.rot", .int 1, .list [.int 2, .float .one], .name "exec.swap", .bool true,
    .name "x"]

theorem ends_within_points_reordering :
    (Evaluator.inputStacks (.int 7)).exec = [] ∧
    (∀ item ∈ (Evaluator.inputStacks (.int 7)).input, item.IsNumber) ∧ (-1 : Int) < 0 ∧
    (∀ leaf ∈ Item.leavesOf reordering, leaf.Shrinks ∧ leaf.Keeps) ∧
    ∃ m', ∀ fuel, 9 ≤ fuel → Machine.execute? fuel (.ofInt (-1))
      ⟨Evaluator.inputStacks (.int 7), 100, 0, 0⟩ reordering = some (m', .ok 9) := by
  have hin : ∀ item ∈ (Evaluator.inputStacks (.int 7)).input, item.IsNumber :=
    List.forall_mem_singleton.mpr trivial
  have hleaves : ∀ leaf ∈ Item.leavesOf reordering, leaf.Shrinks ∧ leaf.Keeps := by
    decide +kernel
  obtain ⟨⟨m', steps, hrun, -, -, hexact⟩, -⟩ :=
    ends_within_points ⟨Evaluator.inputStacks (.int 7), 100, 0, 0⟩ reordering (-1) rfl hin
      (by decide) fun leaf h => (hleaves leaf h).1
  have hsteps := hexact fun leaf h => (hleaves leaf h).2
  subst hsteps
  exact ⟨rfl, hin, by decide, hleaves, m', hrun⟩

end PushFitness
