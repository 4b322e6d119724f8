import PushFitness.Proofs.Evaluation.Completion

/-!
# The combinators on the exec stack

A combinator finds its operands pending behind it, the first one on top, and rearranges them:
`exec.k` drops the second, `exec.s` turns three into four, `exec.if` keeps the one that a truth
value tells, and `exec.dup` makes two of one. Since the operands are only executed
afterwards, each law is about what has been run when all that the combinator put there is gone
(`combinators_rearrange`). Below the operands there may be anything.

The list that `exec.s` builds of its last two operands has a cap on its points. It opens
without a trace, so under the cap the law has no list in it. Above the cap the instruction does
nothing, and then its operands are run as they stand.
-/

namespace PushFitness

variable {maxPoints : Int} {s : Stacks} {a b c : Item}

namespace Stacks

theorem completes_k (b : Item) (hin : ∀ i ∈ s.input, i.IsNumber)
    (ha : ∀ leaf ∈ a.leaves, leaf.Neutral) :
    Completes maxPoints s [.name "exec.k", a, b] (a.size + 1) (s.ran maxPoints a) := by
  have hstep : ∀ exec, (s.withPending ([a, b] ++ exec)).execute maxPoints (.name "exec.k") =
      .ok (s.withPending ([a] ++ exec)) := fun _ => execute_name (i := .combinatorK) rfl
  exact .cons hstep (completes_neutral hin ha)

theorem completes_dup (hin : ∀ i ∈ s.input, i.IsNumber) (ha : ∀ leaf ∈ a.leaves, leaf.Neutral) :
    Completes maxPoints s [.name "exec.dup", a] (Item.sizes [a, a] + 1)
      ([a, a].foldl (ran maxPoints) s) := by
  have hstep : ∀ exec, (s.withPending ([a] ++ exec)).execute maxPoints (.name "exec.dup") =
      .ok (s.withPending ([a, a] ++ exec)) := fun _ => execute_name (i := .move .dup .exec) rfl
  have htwo : ∀ item ∈ [a, a], ∀ leaf ∈ item.leaves, leaf.Neutral :=
    List.forall_mem_cons.mpr ⟨ha, List.forall_mem_singleton.mpr ha⟩
  exact .cons hstep (completes_row hin htwo)

theorem completes_if (condition : Bool) (hin : ∀ i ∈ s.input, i.IsNumber)
    (ha : ∀ leaf ∈ a.leaves, leaf.Neutral) (hb : ∀ leaf ∈ b.leaves, leaf.Neutral) :
    Completes maxPoints { s with boolean := condition :: s.boolean } [.name "exec.if", a, b]
      ((if condition then a else b).size + 1)
      (s.ran maxPoints (if condition then a else b)) := by
  have hstep : ∀ exec, (withPending { s with boolean := condition :: s.boolean }
        ([a, b] ++ exec)).execute maxPoints (.name "exec.if") =
      .ok (s.withPending ([if condition then a else b] ++ exec)) :=
    fun _ => execute_name (i := .branch) rfl
  refine .cons hstep (completes_neutral hin ?_)
  cases condition with
  | true => exact ha
  | false => exact hb

/-- Under the cap the second operand and the third are put into a list, and the third is run
once before it. -/
theorem completes_s (hin : ∀ i ∈ s.input, i.IsNumber) (ha : ∀ leaf ∈ a.leaves, leaf.Neutral)
    (hb : ∀ leaf ∈ b.leaves, leaf.Neutral) (hc : ∀ leaf ∈ c.leaves, leaf.Neutral)
    (hcap : (Item.list [b, c]).size ≤ maxPoints) :
    Completes maxPoints s [.name "exec.s", a, b, c] (Item.sizes [a, c, b, c] + 2)
      ([a, c, b, c].foldl (ran maxPoints) s) := by
  have hstep : ∀ exec, (s.withPending ([a, b, c] ++ exec)).execute maxPoints (.name "exec.s") =
      .ok (s.withPending ([a, c, .list [b, c]] ++ exec)) := fun _ =>
    (execute_name (i := .combinatorS) rfl).trans (congrArg Except.ok (if_pos hcap))
  have hfirst : Completes maxPoints s [a, c] (Item.sizes [a, c])
      ([a, c].foldl (ran maxPoints) s) :=
    completes_row hin (List.forall_mem_cons.mpr ⟨ha, List.forall_mem_singleton.mpr hc⟩)
  let t := [a, c].foldl (ran maxPoints) s
  have hlast : Completes maxPoints t [b, c] (Item.sizes [b, c]) ([b, c].foldl (ran maxPoints) t) :=
    completes_row (by rw [hfirst.input hin]; exact hin)
      (List.forall_mem_cons.mpr ⟨hb, List.forall_mem_singleton.mpr hc⟩)
  have hopened : Completes maxPoints t [.list [b, c]] (Item.sizes [b, c] + 1) _ :=
    .cons (fun _ => rfl) hlast
  have hpoints : Item.sizes [a, c, b, c] + 2 =
      Item.sizes [a, c] + (Item.sizes [b, c] + 1) + 1 := by
    simp only [Item.sizes_cons, Item.sizes_nil]
    omega
  rw [hpoints]
  exact .cons hstep (hfirst.trans hopened)

theorem completes_s_of_lt (hin : ∀ i ∈ s.input, i.IsNumber)
    (ha : ∀ leaf ∈ a.leaves, leaf.Neutral) (hb : ∀ leaf ∈ b.leaves, leaf.Neutral)
    (hc : ∀ leaf ∈ c.leaves, leaf.Neutral) (hcap : maxPoints < (Item.list [b, c]).size) :
    Completes maxPoints s [.name "exec.s", a, b, c] (Item.sizes [a, b, c] + 1)
      ([a, b, c].foldl (ran maxPoints) s) := by
  have hstep : ∀ exec, (s.withPending ([a, b, c] ++ exec)).execute maxPoints (.name "exec.s") =
      .ok (s.withPending ([a, b, c] ++ exec)) := fun _ =>
    (execute_name (i := .combinatorS) rfl).trans (congrArg Except.ok (if_neg (Int.not_le.mpr hcap)))
  have hall : ∀ item ∈ [a, b, c], ∀ leaf ∈ item.leaves, leaf.Neutral :=
    List.forall_mem_cons.mpr ⟨ha, List.forall_mem_cons.mpr ⟨hb, List.forall_mem_singleton.mpr hc⟩⟩
  exact .cons hstep (completes_row hin hall)

end Stacks

/-- What has been run when the operands of a combinator have been worked off, with any items
pending below them and untouched: of `a` and `b` the first; of `a`, `b` and `c` these, or
`a`, `c`, `b`, `c` if a list of `b` and `c` is within the cap; of `a` and `b` the one that the
truth value tells, which is consumed; and `a` twice. -/
theorem combinators_rearrange (maxPoints : Int) (s : Stacks) (a b c : Item)
    (hin : ∀ item ∈ s.input, item.IsNumber) (ha : ∀ leaf ∈ a.leaves, leaf.Neutral)
    (hb : ∀ leaf ∈ b.leaves, leaf.Neutral) (hc : ∀ leaf ∈ c.leaves, leaf.Neutral) :
    Stacks.Completes maxPoints s [.name "exec.k", a, b] (a.size + 1) (s.ran maxPoints a) ∧
    ((Item.list [b, c]).size ≤ maxPoints →
      Stacks.Completes maxPoints s [.name "exec.s", a, b, c] (Item.sizes [a, c, b, c] + 2)
        ([a, c, b, c].foldl (Stacks.ran maxPoints) s)) ∧
    (maxPoints < (Item.list [b, c]).size →
      Stacks.Completes maxPoints s [.name "exec.s", a, b, c] (Item.sizes [a, b, c] + 1)
        ([a, b, c].foldl (Stacks.ran maxPoints) s)) ∧
    (∀ condition : Bool,
      Stacks.Completes maxPoints { s with boolean := condition :: s.boolean }
        [.name "exec.if", a, b] ((if condition then a else b).size + 1)
        (s.ran maxPoints (if condition then a else b))) ∧
    Stacks.Completes maxPoints s [.name "exec.dup", a] (Item.sizes [a, a] + 1)
      ([a, a].foldl (Stacks.ran maxPoints) s) :=
  ⟨Stacks.completes_k b hin ha, Stacks.completes_s hin ha hb hc,
    Stacks.completes_s_of_lt hin ha hb hc, fun condition => Stacks.completes_if condition hin ha hb,
    Stacks.completes_dup hin ha⟩

/-- A list of three points that adds two integers and keeps a name. -/
def addAndName : Item := .list [.name "integer.+", .name "x"]

theorem combinators_rearrange_addAndName :
    (∀ item ∈ twoIntegers.input, item.IsNumber) ∧
    (∀ leaf ∈ (Item.int 5).leaves, leaf.Neutral) ∧ (∀ leaf ∈ addAndName.leaves, leaf.Neutral) ∧
    (∀ leaf ∈ (Item.name "integer.*").leaves, leaf.Neutral) ∧
    (twoIntegers.withPending ([.name "exec.s", .int 5, addAndName, .name "integer.*"] ++
        twoIntegers.exec)).run 100 8 =
      ⟨{ twoIntegers with integer := [13], name := [.name "x"] }, 8, none⟩ ∧
    (twoIntegers.withPending ([.name "exec.s", .int 5, addAndName, .name "integer.*"] ++
        twoIntegers.exec)).run 4 6 =
      ⟨{ twoIntegers with integer := [21], name := [.name "x"] }, 6, none⟩ := by
  have hin : ∀ item ∈ twoIntegers.input, item.IsNumber := List.forall_mem_singleton.mpr trivial
  have ha : ∀ leaf ∈ (Item.int 5).leaves, leaf.Neutral := by decide +kernel
  have hb : ∀ leaf ∈ addAndName.leaves, leaf.Neutral := by decide +kernel
  have hc : ∀ leaf ∈ (Item.name "integer.*").leaves, leaf.Neutral := by decide +kernel
  obtain ⟨-, hunder, -⟩ := combinators_rearrange 100 twoIntegers _ _ _ hin ha hb hc
  obtain ⟨-, -, habove, -⟩ := combinators_rearrange 4 twoIntegers _ _ _ hin ha hb hc
  exact ⟨hin, ha, hb, hc, (hunder (by decide)).run twoIntegers.exec,
    (habove (by decide)).run twoIntegers.exec⟩

end PushFitness
