import PushFitness.Proofs.Machine.Pending
import PushFitness.Proofs.Program.Size

/-!
# Programs read from left to right

The machine takes a program apart on a stack, one list at a time, and what it is going to do
next lies scattered among items of other programs below. Without instructions that work on
the exec stack none of this shows. Such a program is the sequence of its leaves:
`runs_left_to_right` says that as many steps as it has points execute these leaves from left
to right and then stop where the items below begin.

The invariant is about a row of pending items in front of others. A step takes the first
item of the row: a list is replaced by its items, which leaves the row with the same leaves
and one point less, and a leaf is executed and gone (`step_neutral`). What lies behind the
row is a parameter throughout. The same steps are taken whatever it is, so nothing of it is
looked at, moved or executed on the way.
-/

namespace PushFitness

variable {maxPoints : Int} {s : Stacks}

/-! ## Neutral leaves -/

theorem Instruction.table_usesPending : ∀ entry ∈ table, entry.2.usesPending = true →
    "exec.".toList <+: entry.1.toList ∨ entry.1 = "code.quote" := by decide +kernel

/-- A leaf that can be executed and is not the name of an instruction on the exec stack. -/
def Item.Neutral : Item → Prop
  | .hole => False
  | .name n => ¬ "exec.".toList <+: n.toList ∧ n ≠ "code.quote" ∧
      ∀ count, ¬ Instruction.Overlong n count
  | .int _ | .float _ | .bool _ | .list _ => True

instance : DecidablePred Item.Neutral
  | .hole => isFalse id
  | .name _ => inferInstanceAs (Decidable (_ ∧ _ ∧ _))
  | .int _ | .float _ | .bool _ | .list _ => isTrue trivial

theorem Instruction.usesPending_eq_false {name : String} {i : Instruction}
    (h : ofName? name = .ok (some i)) (hname : (Item.name name).Neutral) :
    i.usesPending = false := by
  obtain ⟨hexec, hquote, -⟩ := hname
  rcases ofName?_eq_some h with htable | ⟨n, rfl⟩
  · refine Bool.eq_false_iff.mpr fun huses => ?_
    rcases table_usesPending (name, i) htable huses with hprefix | hcode
    · exact hexec hprefix
    · exact hquote hcode
  · rfl

namespace Stacks

/-- Executes items one after the other, outside of a run. -/
def executeAll (maxPoints : Int) (s : Stacks) (items : List Item) : Except MachineError Stacks :=
  items.foldlM (execute maxPoints) s

theorem executeAll_cons_of_ok {item : Item} {t : Stacks} (h : s.execute maxPoints item = .ok t)
    (items : List Item) :
    s.executeAll maxPoints (item :: items) = t.executeAll maxPoints items := by
  rw [executeAll, List.foldlM_cons, h]
  rfl

theorem executeAll_append_of_ok {items : List Item} {t : Stacks}
    (h : s.executeAll maxPoints items = .ok t) (items' : List Item) :
    s.executeAll maxPoints (items ++ items') = t.executeAll maxPoints items' := by
  rw [executeAll, List.foldlM_append, ← executeAll, h]
  rfl

theorem execute_int {i : Int} (h : Int32.InRange i) : s.execute maxPoints (.int i) =
    .ok { s with integer := i :: s.integer } := by
  show Except.ok (s.push (.int i)) = _
  rw [push, Int32.wrap_of_inRange h]

/-- A neutral leaf does the same whatever is pending, and leaves that alone. -/
theorem execute_neutral (maxPoints : Int) {leaf : Item} (hleaf : leaf.Neutral)
    (hlist : ∀ items, leaf ≠ .list items) (hin : ∀ item ∈ s.input, item.IsNumber) :
    ∃ t, s.execute maxPoints leaf = .ok t ∧ t.exec = s.exec ∧ t.input = s.input ∧
      ∀ exec, (s.withPending exec).execute maxPoints leaf = .ok (t.withPending exec) := by
  cases leaf with
  | list items => exact absurd rfl (hlist items)
  | hole => exact hleaf.elim
  | int _ | float _ | bool _ => exact ⟨_, rfl, rfl, rfl, fun _ => rfl⟩
  | name n =>
      cases hn : Instruction.ofName? n with
      | error e => exact absurd (Instruction.ofName?_eq_error_iff.mp hn) (hleaf.2.2 e.count)
      | ok found =>
          cases found with
          | none =>
              refine ⟨{ s with name := .name n :: s.name }, ?_, rfl, rfl, fun exec => ?_⟩
              · rw [execute, hn]
              · rw [execute, hn]
                rfl
          | some i =>
              have huses := Instruction.usesPending_eq_false hn hleaf
              have hchanged : s.Changed maxPoints (s.apply maxPoints i) := apply_changed hin i
              refine ⟨s.apply maxPoints i, ?_, apply_exec_eq huses hin, hchanged.input,
                fun exec => ?_⟩
              · rw [execute, hn]
              · rw [execute, hn]
                exact congrArg Except.ok (apply_withPending huses hin exec)

/-! ## Rows of neutral items -/

/-- What a step makes of a row of pending items in front of others: other items `row'`, and the
stacks `t`. The row is one point smaller, and to execute its leaves is still to do the same. -/
structure Advanced (maxPoints : Int) (s : Stacks) (row : List Item) (t : Stacks)
    (row' : List Item) : Prop where
  points : Item.sizes row = Item.sizes row' + 1
  neutral : ∀ leaf ∈ Item.leavesOf row', leaf.Neutral
  meaning : s.executeAll maxPoints (Item.leavesOf row) =
    t.executeAll maxPoints (Item.leavesOf row')
  exec : t.exec = s.exec
  input : t.input = s.input

theorem step_neutral (maxPoints : Int) {item : Item} {items : List Item}
    (hleaves : ∀ leaf ∈ Item.leavesOf (item :: items), leaf.Neutral)
    (hin : ∀ i ∈ s.input, i.IsNumber) :
    ∃ t row, Advanced maxPoints s (item :: items) t row ∧ ∀ exec,
      (s.withPending (items ++ exec)).execute maxPoints item =
        .ok (t.withPending (row ++ exec)) := by
  by_cases hlist : ∃ inner, item = .list inner
  · obtain ⟨inner, rfl⟩ := hlist
    have hsame : Item.leavesOf (.list inner :: items) = Item.leavesOf (inner ++ items) := by
      rw [Item.leavesOf_cons, Item.leaves_list, Item.leavesOf_append]
    refine ⟨s, inner ++ items, ⟨?_, hsame ▸ hleaves, by rw [hsame], rfl, rfl⟩, fun exec => ?_⟩
    · rw [Item.sizes_cons, Item.size_list, Item.sizes_append]
      omega
    · rw [List.append_assoc]
      rfl
  · rw [not_exists] at hlist
    have hsingle : item.leaves = [item] := Item.leaves_of_ne_list hlist
    have hsize : item.size = 1 := Item.size_of_ne_list hlist
    rw [Item.leavesOf_cons, hsingle] at hleaves
    have hitem : item.Neutral := hleaves item (by simp)
    obtain ⟨t, ht, hexec, hinput, hpending⟩ :=
      execute_neutral maxPoints hitem hlist hin
    refine ⟨t, items, ⟨?_, fun leaf h => hleaves leaf (List.mem_append_right _ h), ?_, hexec,
      hinput⟩, fun exec => hpending _⟩
    · rw [Item.sizes_cons, hsize, Nat.add_comm]
    · rw [Item.leavesOf_cons, hsingle]
      exact executeAll_cons_of_ok ht _

/-- A run over a row of neutral items executes their leaves from left to right. On the way what
is pending is a row in front of the same other items, and until the end it is not empty. -/
theorem run_neutral (maxPoints : Int) (row : List Item)
    (hleaves : ∀ leaf ∈ Item.leavesOf row, leaf.Neutral) (hin : ∀ i ∈ s.input, i.IsNumber) :
    ∃ t, s.executeAll maxPoints (Item.leavesOf row) = .ok t ∧ t.exec = s.exec ∧
      (∀ exec, (s.withPending (row ++ exec)).run maxPoints (Item.sizes row) =
        ⟨t.withPending exec, Item.sizes row, none⟩) ∧
      ∀ k ≤ Item.sizes row, ∃ (u : Stacks) (row' : List Item), (row' = [] → k = Item.sizes row) ∧
        ∀ exec, (s.withPending (row ++ exec)).after maxPoints k = u.withPending (row' ++ exec) := by
  -- by induction on the points of the row, which is not a part of the row before it
  induction hpoints : Item.sizes row generalizing s row with
  | zero =>
      cases row with
      | cons item items =>
          have hpos := Item.size_pos item
          rw [Item.sizes_cons] at hpoints
          omega
      | nil =>
          refine ⟨s, rfl, rfl, fun _ => rfl, fun k hk => ⟨s, [], fun _ => by omega, fun exec => ?_⟩⟩
          rw [Nat.le_zero.mp hk]
          rfl
  | succ points ih =>
      cases row with
      | nil => rw [Item.sizes_nil] at hpoints; omega
      | cons item items =>
          obtain ⟨u, row, hadvanced, hstep⟩ := step_neutral maxPoints hleaves hin
          have hrow : Item.sizes row = points := by
            have hless := hadvanced.points
            omega
          obtain ⟨t, hmeaning, hexec, hrun, hway⟩ :=
            ih row hadvanced.neutral (hadvanced.input ▸ hin) hrow
          refine ⟨t, hadvanced.meaning.trans hmeaning, hexec.trans hadvanced.exec, fun exec => ?_,
            fun k hk => ?_⟩
          · rw [run_succ_of_ok (s := s.withPending (item :: items ++ exec)) rfl (hstep exec), hrun]
          · cases k with
            | zero => exact ⟨s, item :: items, (nomatch ·), fun _ => rfl⟩
            | succ k =>
                obtain ⟨v, row', hend, hafter⟩ := hway k (by omega)
                refine ⟨v, row', fun h => congrArg (· + 1) (hend h), fun exec => ?_⟩
                rw [after_succ, next_of_ok (s := s.withPending (item :: items ++ exec)) rfl
                  (hstep exec), hafter]

end Stacks

/-- An item all of whose leaves are neutral, on top of any exec stack, takes as many steps as it
has points. They leave that exec stack, and on the other stacks what its leaves leave
when they are executed by themselves from left to right. Before the last step something of
the item is pending, always in front of the items below, which may be any others as well. An
item with the same leaves in other lists ends in the same stacks. -/
theorem runs_left_to_right (maxPoints : Int) (s : Stacks) (p : Item)
    (hin : ∀ item ∈ s.input, item.IsNumber) (hleaves : ∀ leaf ∈ p.leaves, leaf.Neutral) :
    ∃ t, s.executeAll maxPoints p.leaves = .ok t ∧ t.exec = s.exec ∧
      Stacks.run maxPoints p.size { s with exec := p :: s.exec } = ⟨t, p.size, none⟩ ∧
      (∀ k ≤ p.size, ∃ (u : Stacks) (row : List Item), (row = [] → k = p.size) ∧ ∀ exec,
        Stacks.after maxPoints { s with exec := p :: exec } k = { u with exec := row ++ exec }) ∧
      ∀ q : Item, q.leaves = p.leaves →
        Stacks.run maxPoints q.size { s with exec := q :: s.exec } = ⟨t, q.size, none⟩ := by
  have hsingle (q : Item) : Item.leavesOf [q] = q.leaves := by
    rw [Item.leavesOf_cons, Item.leavesOf_nil, List.append_nil]
  have hpoints (q : Item) : Item.sizes [q] = q.size := by
    rw [Item.sizes_cons, Item.sizes_nil, Nat.add_zero]
  have hrow (q : Item) (hq : q.leaves = p.leaves) :=
    Stacks.run_neutral maxPoints [q] (by rw [hsingle, hq]; exact hleaves) hin
  simp only [hsingle, hpoints] at hrow
  obtain ⟨t, hmeaning, hexec, hrun, hway⟩ := hrow p rfl
  have hsame : t.withPending s.exec = t := by rw [← hexec, Stacks.withPending_exec]
  refine ⟨t, hmeaning, hexec, hsame ▸ hrun s.exec, hway, fun q hq => ?_⟩
  obtain ⟨t', hmeaning', -, hrun', -⟩ := hrow q hq
  rw [hq, hmeaning] at hmeaning'
  obtain rfl := Except.ok.inj hmeaning'
  exact hsame ▸ hrun' s.exec

/-- A list of six points that uses the stacks below its own values. -/
def scattered : Item := .list [.name "integer.+", .list [.list [], .name "input.in0"], .name "x"]

/-- Two integers, an input, and a pending instruction that would drop whatever is pending. -/
def twoIntegers : Stacks :=
  { Stacks.empty with integer := [2, 3], exec := [.name "exec.flush"], input := [.int 7] }

theorem runs_left_to_right_scattered :
    (∀ item ∈ twoIntegers.input, item.IsNumber) ∧ (∀ leaf ∈ scattered.leaves, leaf.Neutral) ∧
    Stacks.run 100 6 { twoIntegers with exec := scattered :: twoIntegers.exec } =
      ⟨{ twoIntegers with integer := [7, 5], name := [.name "x"] }, 6, none⟩ := by
  have hin : ∀ item ∈ twoIntegers.input, item.IsNumber := List.forall_mem_singleton.mpr trivial
  have hleaves : ∀ leaf ∈ scattered.leaves, leaf.Neutral := by decide +kernel
  obtain ⟨t, hmeaning, -, hrun, -, -⟩ := runs_left_to_right 100 twoIntegers scattered hin hleaves
  have hleft : twoIntegers.executeAll 100 scattered.leaves =
      .ok { twoIntegers with integer := [7, 5], name := [.name "x"] } := by rfl
  rw [hleft] at hmeaning
  obtain rfl := Except.ok.inj hmeaning
  exact ⟨hin, hleaves, hrun⟩

end PushFitness
