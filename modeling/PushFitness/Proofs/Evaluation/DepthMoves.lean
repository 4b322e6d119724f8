import PushFitness.Proofs.Evaluation.LeftToRight
import PushFitness.Proofs.Machine.Untyped

/-!
# Moves with a depth undo each other

`yank` brings an item up from a depth and `shove` buries the top item at a depth, so each of them
takes back what the other did at the same depth. It is not obvious that the depths agree. They are
cut to what the stack has room for, in `yank` with the item that is moved and in `shove` without
it, and on the integer stack the depth itself lies on top of the items that are to be moved.

As lists the two are inverse to each other for every depth (`Stack.shove_yank`,
`Stack.yank_shove`). What is shown here is that nothing else happens on the machine: the depth is
pushed and then consumed, and what is left is the move on the stack as it was before
(`executeAll_atDepth`).
-/

namespace PushFitness

variable {maxPoints : Int} {s : Stacks} {on : StackName} {d : Int}

/-- The name of an instruction that every stack has. -/
def StackName.word (on : StackName) (move : String) : Item := .name (on.text ++ "." ++ move)

/-- The items that make a move with a depth on a stack. -/
def StackName.atDepth (on : StackName) (d : Int) (move : String) : List Item :=
  [.int d, on.word move]

def DepthMove.text : DepthMove → String
  | yank => "yank"
  | yankDup => "yankdup"
  | shove => "shove"

def StackMove.text : StackMove → String
  | pop => "pop"
  | dup => "dup"
  | swap => "swap"
  | rot => "rot"
  | flush => "flush"

theorem Instruction.ofName?_depthMove (m : DepthMove) (on : StackName) :
    ofName? (on.text ++ "." ++ m.text) = .ok (some (.moveAt m on)) := by
  refine ofName?_of_mem_stackTable ?_
  cases m <;> simp [stackTable, DepthMove.text]

theorem Instruction.ofName?_stackMove (m : StackMove) (on : StackName) :
    ofName? (on.text ++ "." ++ m.text) = .ok (some (.move m on)) := by
  refine ofName?_of_mem_stackTable ?_
  cases m <;> simp [stackTable, StackMove.text]

namespace Stacks

/-- One stack holds the same items in some order, and the others are unchanged. -/
structure PermutedOn (s : Stacks) (on : StackName) (t : Stacks) : Prop where
  perm : (t.items on.slot).Perm (s.items on.slot)
  others : ∀ slot ≠ on.slot, t.items slot = s.items slot

/-! ## The move that is left when the depth is consumed -/

theorem executeAll_atDepth (m : DepthMove) (hd : Int32.InRange d) (hon : 0 < s.depth on) :
    s.executeAll maxPoints (on.atDepth d m.text) = .ok (s.rearrange (m.apply d) on) := by
  have hmoved : execute maxPoints { s with integer := d :: s.integer }
      (on.word m.text) = .ok (s.rearrange (m.apply d) on) := by
    rw [StackName.word, execute_name (Instruction.ofName?_depthMove m on), apply,
      moveAt_of_cons (s := { s with integer := d :: s.integer }) rfl]
    exact congrArg Except.ok (if_neg (Nat.ne_of_gt hon))
  rw [StackName.atDepth, executeAll_cons_of_ok (execute_int hd), executeAll_cons_of_ok hmoved]
  rfl

/-- With nothing to move, the depth stays. -/
theorem executeAll_atDepth_of_empty (m : DepthMove) (hd : Int32.InRange d) (hon : s.depth on = 0) :
    s.executeAll maxPoints (on.atDepth d m.text) = s.execute maxPoints (.int d) := by
  have hidle : execute maxPoints { s with integer := d :: s.integer }
      (on.word m.text) = .ok { s with integer := d :: s.integer } := by
    rw [StackName.word, execute_name (Instruction.ofName?_depthMove m on), apply,
      moveAt_of_cons (s := { s with integer := d :: s.integer }) rfl]
    exact congrArg Except.ok (if_pos hon)
  rw [StackName.atDepth, executeAll_cons_of_ok (execute_int hd), executeAll_cons_of_ok hidle,
    execute_int hd]
  rfl

theorem items_moved (m : DepthMove) (slot : Slot) : (s.rearrange (m.apply d) on).items slot =
    if slot = on.slot then m.apply d (s.items on.slot) else s.items slot :=
  (congrFun (Untyped.put_depthMove_items s m d on) slot).symm

theorem depth_moved {m : DepthMove} (hm : m.copies = false) :
    (s.rearrange (m.apply d) on).depth on = s.depth on := by
  rw [← length_items, items_moved, if_pos rfl, (DepthMove.apply_perm hm d _).length_eq,
    length_items]

theorem moved_permutedOn {m : DepthMove} (hm : m.copies = false) :
    s.PermutedOn on (s.rearrange (m.apply d) on) where
  perm := by
    rw [items_moved, if_pos rfl]
    exact DepthMove.apply_perm hm d _
  others slot hslot := by rw [items_moved, if_neg hslot]

/-! ## Two moves -/

/-- A move that takes back another one takes it back on every stack. -/
theorem rearrange_undo {m m' : DepthMove}
    (hundo : ∀ {α : Type} (xs : List α), m'.apply d (m.apply d xs) = xs) :
    (s.rearrange (m.apply d) on).rearrange (m'.apply d) on = s := by
  cases on <;> simp only [rearrange, hundo]

theorem executeAll_undo (m m' : DepthMove) (hm : m.copies = false) (hd : Int32.InRange d)
    (hon : 0 < s.depth on)
    (hundo : ∀ {α : Type} (xs : List α), m'.apply d (m.apply d xs) = xs) :
    s.executeAll maxPoints (on.atDepth d m.text ++ on.atDepth d m'.text) = .ok s := by
  have hleft : 0 < (s.rearrange (m.apply d) on).depth on := by rwa [depth_moved hm]
  rw [executeAll_append_of_ok (executeAll_atDepth m hd hon), executeAll_atDepth m' hd hleft,
    rearrange_undo hundo]

/-- A move without a depth that does on long stacks what another one does at a depth. -/
theorem execute_eq_atDepth (m : StackMove) (m' : DepthMove) {least : Nat} (hd : Int32.InRange d)
    (hleast : 0 < least) (hon : least ≤ s.depth on)
    (heq : ∀ {α : Type} {xs : List α}, least ≤ xs.length → m.apply xs = m'.apply d xs) :
    s.execute maxPoints (on.word m.text) =
      s.executeAll maxPoints (on.atDepth d m'.text) := by
  rw [executeAll_atDepth m' hd (Nat.lt_of_lt_of_le hleast hon),
    StackName.word, execute_name (Instruction.ofName?_stackMove m on), apply]
  cases on <;> simp only [rearrange, heq hon]

end Stacks

/-- On a stack that is not empty `yank` and `shove` at a depth undo each other, in both orders, and
leave all seven stacks as they were. Each of them consumes the depth and only puts the items of its
stack in another order; `yankdup` puts a copy of the item on top that `yank` would bring there. On
an empty stack all three leave the depth where it is. `rot` and `swap` are moves at the depths two
and one, on stacks that have as many items below the top. -/
theorem depth_moves_undo (maxPoints : Int) (s : Stacks) (on : StackName) (d : Int)
    (hd : Int32.InRange d) :
    (0 < s.depth on →
      s.executeAll maxPoints (on.atDepth d "yank" ++ on.atDepth d "shove") = .ok s ∧
      s.executeAll maxPoints (on.atDepth d "shove" ++ on.atDepth d "yank") = .ok s ∧
      (∃ t, s.executeAll maxPoints (on.atDepth d "shove") = .ok t ∧ s.PermutedOn on t) ∧
      ∃ t u x, s.executeAll maxPoints (on.atDepth d "yank") = .ok t ∧ s.PermutedOn on t ∧
        (t.items on.slot).head? = some x ∧
        s.executeAll maxPoints (on.atDepth d "yankdup") = .ok u ∧
        u.items on.slot = x :: s.items on.slot ∧
        ∀ slot ≠ on.slot, u.items slot = s.items slot) ∧
    (s.depth on = 0 → ∀ move ∈ ["yank", "shove", "yankdup"],
      s.executeAll maxPoints (on.atDepth d move) = s.execute maxPoints (.int d)) ∧
    (3 ≤ s.depth on → s.execute maxPoints (on.word "rot") =
      s.executeAll maxPoints (on.atDepth 2 "yank")) ∧
    (2 ≤ s.depth on →
      s.execute maxPoints (on.word "swap") =
        s.executeAll maxPoints (on.atDepth 1 "yank") ∧
      s.execute maxPoints (on.word "swap") =
        s.executeAll maxPoints (on.atDepth 1 "shove")) := by
  refine ⟨fun hon => ⟨?_, ?_, ?_, ?_⟩, fun hempty => ?_, fun hon => ?_, fun hon => ⟨?_, ?_⟩⟩
  · exact Stacks.executeAll_undo .yank .shove rfl hd hon (Stack.shove_yank d)
  · exact Stacks.executeAll_undo .shove .yank rfl hd hon (Stack.yank_shove d)
  · exact ⟨_, Stacks.executeAll_atDepth .shove hd hon, Stacks.moved_permutedOn rfl⟩
  · have hitems : s.items on.slot ≠ [] := by
      rw [← List.length_pos_iff, Stacks.length_items]
      exact hon
    obtain ⟨x, -, hyank⟩ := Stack.yank_of_ne_nil d hitems
    have htop : (Stack.yank d (s.items on.slot)).head? = some x := by rw [hyank, List.head?_cons]
    refine ⟨_, _, x, Stacks.executeAll_atDepth .yank hd hon, Stacks.moved_permutedOn rfl, ?_,
      Stacks.executeAll_atDepth .yankDup hd hon, ?_, fun slot hslot => ?_⟩
    · rw [Stacks.items_moved, if_pos rfl]
      exact htop
    · rw [Stacks.items_moved, if_pos rfl]
      exact Stack.yankDup_of_yank htop
    · rw [Stacks.items_moved, if_neg hslot]
  · simp only [List.forall_mem_cons]
    exact ⟨Stacks.executeAll_atDepth_of_empty .yank hd hempty,
      Stacks.executeAll_atDepth_of_empty .shove hd hempty,
      Stacks.executeAll_atDepth_of_empty .yankDup hd hempty, List.forall_mem_nil _⟩
  · exact Stacks.execute_eq_atDepth .rot .yank (by decide) (by decide) hon
      Stack.rot_eq_yank
  · exact Stacks.execute_eq_atDepth .swap .yank (by decide) (by decide) hon
      Stack.swap_eq_yank
  · exact Stacks.execute_eq_atDepth .swap .shove (by decide) (by decide) hon
      Stack.swap_eq_shove

/-- On the integer stack, where a depth beyond the stack lies on top of the items to be moved. -/
theorem depth_moves_undo_beyond :
    Int32.InRange 9 ∧
    ({ Stacks.empty with integer := [1, 2, 3] }).executeAll 100
        [.int 9, .name "integer.yank", .int 9, .name "integer.shove"] =
      .ok { Stacks.empty with integer := [1, 2, 3] } ∧
    ({ Stacks.empty with integer := [1, 2, 3] }).executeAll 100
        [.int 9, .name "integer.shove", .int 9, .name "integer.yank"] =
      .ok { Stacks.empty with integer := [1, 2, 3] } ∧
    ({ Stacks.empty with integer := [1, 2, 3] }).execute 100 (.name "integer.rot") =
      ({ Stacks.empty with integer := [1, 2, 3] }).executeAll 100
        [.int 2, .name "integer.yank"] := by
  have hd : Int32.InRange 9 := by decide
  obtain ⟨hundo, -, hrot, -⟩ :=
    depth_moves_undo 100 { Stacks.empty with integer := [1, 2, 3] } .integer 9 hd
  obtain ⟨hyank, hshove, -⟩ := hundo (by decide)
  exact ⟨hd, hyank, hshove, hrot (by decide)⟩

end PushFitness
