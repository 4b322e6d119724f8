import Mathlib.Logic.Function.Iterate
import PushFitness.Proofs.Evaluation.Completion

/-!
# Loops are unrolled

A loop is code that puts itself back behind its body, with the next index as a literal in front,
until the index has come to the last one. What the body does to the integer stack does not
matter to it: the index that is left to the body is gone by the time the next one is needed,
and that one waits on the exec stack. So a loop over a range pushes an index and runs the
body, for each index from the first to the last (`completes_range`). The induction is on the
distance that is left, in both directions at once.

A counted loop is a list that starts such a loop below the count. When the index is not wanted,
`integer.pop` is put in front of the body, so that the body finds the stacks as they were
before the index was pushed (`ranAt_withoutIndex`), and what remains of the loop is the body
as often as the count says.
-/

namespace PushFitness

variable {maxPoints : Int} {s t : Stacks} {body : Item} {start stop count : Int} {n : Nat}

/-! ## Indices -/

/-- The indices of a loop, from the first to the last in steps of one, up or down. -/
def loopIndices (start stop : Int) : List Int :=
  (List.range ((stop - start).natAbs + 1)).map fun (j : Nat) =>
    if start ≤ stop then start + j else start - j

theorem loopIndices_self (n : Int) : loopIndices n n = [n] := by
  simp [loopIndices]

theorem loopIndices_of_ne (h : start ≠ stop) : loopIndices start stop =
    start :: loopIndices (if start < stop then start + 1 else start - 1) stop := by
  have hdistance : (stop - start).natAbs =
      (stop - if start < stop then start + 1 else start - 1).natAbs + 1 := by
    split <;> omega
  rw [loopIndices, loopIndices, hdistance, List.range_succ_eq_map, List.map_cons, List.map_map]
  congr 1
  · split <;> omega
  · refine List.map_congr_left fun j hj => ?_
    rw [List.mem_range] at hj
    simp only [Function.comp_apply]
    -- going down, the last index is in the same place as in a loop that goes up
    split at hj <;> split <;> split <;> omega

theorem mem_loopIndices {i : Int} :
    i ∈ loopIndices start stop ↔ min start stop ≤ i ∧ i ≤ max start stop := by
  simp only [loopIndices, List.mem_map, List.mem_range]
  constructor
  · rintro ⟨j, hj, rfl⟩
    split <;> omega
  · rintro ⟨hlo, hhi⟩
    refine ⟨(i - start).natAbs, by omega, ?_⟩
    split <;> omega

theorem loopIndices_zero (h : 0 < count) :
    loopIndices 0 (count - 1) = (List.range count.toNat).map fun (j : Nat) => (j : Int) := by
  have hlength : (count - 1 - 0).natAbs + 1 = count.toNat := by omega
  rw [loopIndices, hlength]
  refine List.map_congr_left fun j _ => ?_
  rw [if_pos (by omega), Int.zero_add]

namespace Stacks

/-- The stacks after an index was pushed and an item was run. -/
def ranAt (maxPoints : Int) (item : Item) (s : Stacks) (index : Int) : Stacks :=
  ran maxPoints { s with integer := index :: s.integer } item

/-! ## Loops over a range -/

theorem rangeLoop_self {ints : List Int} {exec : List Item} :
    rangeLoop { s with integer := stop :: stop :: ints, exec := body :: exec } =
      { s with integer := stop :: ints, exec := body :: exec } := by
  simp only [rangeLoop, if_true]

theorem rangeLoop_of_ne (h : start ≠ stop) {ints : List Int} {exec : List Item} :
    rangeLoop { s with integer := stop :: start :: ints, exec := body :: exec } =
      { s with integer := start :: ints, exec := body ::
        rangeItem (if start < stop then start + 1 else start - 1) stop body :: exec } := by
  simp only [rangeLoop, if_neg h]

/-- The list that runs a loop puts its bounds on the integer stack. -/
theorem completes_rangeItem (hstart : Int32.InRange start) (hstop : Int32.InRange stop)
    (h : Completes maxPoints { s with integer := stop :: start :: s.integer }
      [.name "exec.do*range", body] n t) :
    Completes maxPoints s [rangeItem start stop body] (n + 3) t := by
  have hbounds : Completes maxPoints { s with integer := start :: s.integer }
      [.int stop, .name "exec.do*range", body] (n + 1) t := by
    refine .cons (fun exec => ?_) h
    exact execute_int (s := withPending { s with integer := start :: s.integer } _) hstop
  have hopened : Completes maxPoints s
      [.int start, .int stop, .name "exec.do*range", body] (n + 2) t := by
    refine .cons (fun exec => ?_) hbounds
    exact execute_int (s := s.withPending _) hstart
  exact .cons (fun _ => rfl) hopened

theorem completes_range (hin : ∀ i ∈ s.input, i.IsNumber)
    (hbody : ∀ leaf ∈ body.leaves, leaf.Neutral) (hstart : Int32.InRange start)
    (hstop : Int32.InRange stop) :
    Completes maxPoints { s with integer := stop :: start :: s.integer }
      [.name "exec.do*range", body]
      (body.size * ((stop - start).natAbs + 1) + 4 * (stop - start).natAbs + 1)
      ((loopIndices start stop).foldl (ranAt maxPoints body) s) := by
  have hloop (u : Stacks) : u.execute maxPoints (.name "exec.do*range") = .ok u.rangeLoop :=
    execute_name (i := .doRange) rfl
  have hfirst : Completes maxPoints { s with integer := start :: s.integer } [body] body.size
      (s.ranAt maxPoints body start) := completes_neutral hin hbody
  induction hdistance : (stop - start).natAbs generalizing s start with
  | zero =>
      -- the last index, behind whose body the loop does not put itself back
      obtain rfl : start = stop := by omega
      have hstep : ∀ exec, (withPending { s with integer := start :: start :: s.integer }
          ([body] ++ exec)).execute maxPoints (.name "exec.do*range") =
          .ok (withPending { s with integer := start :: s.integer } ([body] ++ exec)) :=
        fun exec => (hloop _).trans (congrArg Except.ok rangeLoop_self)
      rw [loopIndices_self, Nat.zero_add, Nat.mul_one, Nat.mul_zero, Nat.add_zero]
      exact .cons hstep hfirst
  | succ distance ih =>
      have hne : start ≠ stop := by omega
      let following := if start < stop then start + 1 else start - 1
      have hfollowing : (stop - following).natAbs = distance ∧ Int32.InRange following := by
        simp only [following, Int32.InRange, Int32.bound] at hstart hstop ⊢
        split <;> omega
      have hstep : ∀ exec, (withPending { s with integer := stop :: start :: s.integer }
          ([body] ++ exec)).execute maxPoints (.name "exec.do*range") =
          .ok (withPending { s with integer := start :: s.integer }
            ([body, rangeItem following stop body] ++ exec)) :=
        fun exec => (hloop _).trans (congrArg Except.ok (rangeLoop_of_ne hne))
      have hin' : ∀ i ∈ (s.ranAt maxPoints body start).input, i.IsNumber := by
        rw [hfirst.input hin]
        exact hin
      -- the rest of the loop begins where the body has left the stacks
      have hrest := ih hin' hfollowing.2 (completes_neutral hin' hbody) hfollowing.1
      have hpoints : body.size * (distance + 1 + 1) + 4 * (distance + 1) + 1 =
          body.size + (body.size * (distance + 1) + 4 * distance + 1 + 3) + 1 := by
        rw [Nat.mul_succ]
        omega
      rw [loopIndices_of_ne hne, List.foldl_cons, hpoints]
      exact .cons hstep (hfirst.trans (completes_rangeItem hfollowing.2 hstop hrest))

/-! ## Counted loops -/

theorem leaves_withoutIndex (body : Item) :
    (withoutIndex body).leaves = .name "integer.pop" :: body.leaves := by
  by_cases hlist : ∃ items, body = .list items
  · obtain ⟨items, rfl⟩ := hlist
    rw [withoutIndex, Item.leaves_list, Item.leavesOf_cons, Item.leaves_name, Item.leaves_list]
    rfl
  · rw [not_exists] at hlist
    have hwrapped : withoutIndex body = .list [.name "integer.pop", body] := by
      rw [withoutIndex]
      exact hlist
    rw [hwrapped, Item.leaves_list, Item.leavesOf_cons, Item.leaves_name, Item.leavesOf_single]
    rfl

theorem neutral_withoutIndex (hbody : ∀ leaf ∈ body.leaves, leaf.Neutral) :
    ∀ leaf ∈ (withoutIndex body).leaves, leaf.Neutral := by
  rw [leaves_withoutIndex]
  exact List.forall_mem_cons.mpr ⟨by decide +kernel, hbody⟩

/-- A body that first drops the index is run on the stacks without it. -/
theorem ranAt_withoutIndex (hin : ∀ i ∈ s.input, i.IsNumber)
    (hbody : ∀ leaf ∈ body.leaves, leaf.Neutral) (index : Int) :
    s.ranAt maxPoints (withoutIndex body) index = s.ran maxPoints body := by
  have hdropped : execute maxPoints { s with integer := index :: s.integer }
      (.name "integer.pop") = .ok s := execute_name (i := .move .pop .integer) rfl
  have hboth := executeAll_leaves (s := { s with integer := index :: s.integer }) maxPoints hin
    (neutral_withoutIndex hbody)
  rw [leaves_withoutIndex, executeAll_cons_of_ok hdropped,
    executeAll_leaves maxPoints hin hbody] at hboth
  exact (Except.ok.inj hboth).symm

theorem foldl_ranAt_withoutIndex (hin : ∀ i ∈ s.input, i.IsNumber)
    (hbody : ∀ leaf ∈ body.leaves, leaf.Neutral) (indices : List Int) :
    indices.foldl (ranAt maxPoints (withoutIndex body)) s =
      (ran maxPoints · body)^[indices.length] s := by
  induction indices generalizing s with
  | nil => rfl
  | cons index indices ih =>
      rw [List.foldl_cons, ranAt_withoutIndex hin hbody,
        ih (by rw [ran_input hin hbody]; exact hin), List.length_cons, Function.iterate_succ_apply]

theorem countedLoop_of_nonpos {ints : List Int} (hints : s.integer = count :: ints)
    (hcount : count ≤ 0) (wrapBody : Item → Item) : s.countedLoop wrapBody = s := by
  rw [countedLoop, hints]
  split
  · next heq _ =>
      obtain ⟨rfl, -⟩ := List.cons.inj heq
      rw [if_pos hcount]
  · rfl

theorem countedLoop_of_pos (hcount : 0 < count) (wrapBody : Item → Item) {ints : List Int}
    {exec : List Item} :
    countedLoop { s with integer := count :: ints, exec := body :: exec } wrapBody =
      { s with integer := ints, exec := rangeItem 0 (count - 1) (wrapBody body) :: exec } := by
  simp only [countedLoop, if_neg (Int.not_le.mpr hcount)]

/-- An instruction that starts a counted loop runs what it makes of the body once for each index
below the count. -/
theorem completes_counted {name : String} {wrapBody : Item → Item}
    (hname : ∀ u : Stacks, u.execute maxPoints (.name name) = .ok (u.countedLoop wrapBody))
    (hin : ∀ i ∈ s.input, i.IsNumber) (hbody : ∀ leaf ∈ (wrapBody body).leaves, leaf.Neutral)
    (hrange : Int32.InRange count) (hcount : 0 < count) :
    Completes maxPoints { s with integer := count :: s.integer } [.name name, body]
      (count.toNat * ((wrapBody body).size + 4) + 1)
      ((loopIndices 0 (count - 1)).foldl (ranAt maxPoints (wrapBody body)) s) := by
  have hstep : ∀ exec, (withPending { s with integer := count :: s.integer }
      ([body] ++ exec)).execute maxPoints (.name name) =
      .ok (s.withPending ([rangeItem 0 (count - 1) (wrapBody body)] ++ exec)) :=
    fun exec => (hname _).trans (congrArg Except.ok (countedLoop_of_pos hcount wrapBody))
  have hlast : Int32.InRange (count - 1) := by
    simp only [Int32.InRange, Int32.bound] at hrange ⊢
    omega
  obtain ⟨k, rfl⟩ : ∃ k : Nat, count = k + 1 := ⟨(count - 1).toNat, by omega⟩
  have hloop : Completes maxPoints s [rangeItem 0 ((k : Int) + 1 - 1) (wrapBody body)] _ _ :=
    completes_rangeItem Int32.zero_inRange hlast
      (completes_range hin hbody Int32.zero_inRange hlast)
  have hdistance : ((k : Int) + 1 - 1 - 0).natAbs = k := by omega
  have hsteps : (wrapBody body).size * (k + 1) + 4 * k + 1 + 3 =
      ((k : Int) + 1).toNat * ((wrapBody body).size + 4) := by
    rw [Int.toNat_natCast_add_one, Nat.mul_add (k + 1), Nat.mul_comm (k + 1)]
    omega
  rw [hdistance, hsteps] at hloop
  exact .cons hstep hloop

end Stacks

/-- A loop over a range is its body unrolled: it leaves what is left when the indices from the
first to the last are pushed one after the other and the body is run behind each of them, on
the integers below the bounds. It takes the points of the body for every index, four steps
from one index to the next, and one to begin. All indices are between the bounds. -/
theorem range_loops_unroll (maxPoints : Int) (s : Stacks) (start stop : Int) (body : Item)
    (hin : ∀ item ∈ s.input, item.IsNumber) (hbody : ∀ leaf ∈ body.leaves, leaf.Neutral)
    (hstart : Int32.InRange start) (hstop : Int32.InRange stop) :
    Stacks.Completes maxPoints { s with integer := stop :: start :: s.integer }
      [.name "exec.do*range", body]
      (body.size * ((stop - start).natAbs + 1) + 4 * (stop - start).natAbs + 1)
      ((loopIndices start stop).foldl (Stacks.ranAt maxPoints body) s) ∧
    ∀ i ∈ loopIndices start stop, min start stop ≤ i ∧ i ≤ max start stop :=
  ⟨Stacks.completes_range hin hbody hstart hstop, fun _ hi => mem_loopIndices.mp hi⟩

/-- A body that adds and multiplies below its index. -/
def addThenMultiply : Item := .list [.name "integer.+", .name "integer.*"]

theorem range_loops_unroll_addThenMultiply :
    (∀ item ∈ twoIntegers.input, item.IsNumber) ∧
    (∀ leaf ∈ addThenMultiply.leaves, leaf.Neutral) ∧ Int32.InRange 7 ∧ Int32.InRange 5 ∧
    Stacks.run 100 18 { twoIntegers with
        integer := [5, 7, 2, 3],
        exec := .name "exec.do*range" :: addThenMultiply :: twoIntegers.exec } =
      ⟨{ twoIntegers with integer := [38] }, 18, none⟩ ∧
    ∀ i ∈ loopIndices 7 5, 5 ≤ i ∧ i ≤ 7 := by
  have hin : ∀ item ∈ twoIntegers.input, item.IsNumber := List.forall_mem_singleton.mpr trivial
  have hbody : ∀ leaf ∈ addThenMultiply.leaves, leaf.Neutral := by decide +kernel
  obtain ⟨hloop, hindices⟩ :=
    range_loops_unroll 100 twoIntegers 7 5 addThenMultiply hin hbody (by decide) (by decide)
  exact ⟨hin, hbody, by decide, by decide, hloop.run twoIntegers.exec, hindices⟩

/-- A counted loop with a positive count runs its body once for each index below the count: with
the index pushed in front of it, or without any index. With another count it does nothing. -/
theorem counted_loops_repeat (maxPoints : Int) (s : Stacks) (count : Int) (body : Item)
    (hin : ∀ item ∈ s.input, item.IsNumber) (hbody : ∀ leaf ∈ body.leaves, leaf.Neutral)
    (hrange : Int32.InRange count) :
    (0 < count →
      Stacks.Completes maxPoints { s with integer := count :: s.integer }
        [.name "exec.do*count", body] (count.toNat * (body.size + 4) + 1)
        ((List.range count.toNat).foldl (fun t (j : Nat) => t.ranAt maxPoints body j) s) ∧
      Stacks.Completes maxPoints { s with integer := count :: s.integer }
        [.name "exec.do*times", body] (count.toNat * ((Stacks.withoutIndex body).size + 4) + 1)
        ((Stacks.ran maxPoints · body)^[count.toNat] s)) ∧
    (count ≤ 0 → ∀ t : Stacks, t.integer = count :: s.integer →
      t.execute maxPoints (.name "exec.do*count") = .ok t ∧
      t.execute maxPoints (.name "exec.do*times") = .ok t) := by
  have hcounting (u : Stacks) : u.execute maxPoints (.name "exec.do*count") =
      .ok (u.countedLoop id) := Stacks.execute_name (i := .doCount) rfl
  have htimes (u : Stacks) : u.execute maxPoints (.name "exec.do*times") =
      .ok (u.countedLoop Stacks.withoutIndex) := Stacks.execute_name (i := .doTimes) rfl
  refine ⟨fun hpos => ⟨?_, ?_⟩, fun hnonpos t ht => ⟨?_, ?_⟩⟩
  · have hloop := Stacks.completes_counted hcounting hin hbody hrange hpos
    rw [loopIndices_zero hpos, List.foldl_map] at hloop
    exact hloop
  · have hloop := Stacks.completes_counted htimes hin (Stacks.neutral_withoutIndex hbody)
      hrange hpos
    rw [Stacks.foldl_ranAt_withoutIndex hin hbody, loopIndices_zero hpos, List.length_map,
      List.length_range] at hloop
    exact hloop
  · rw [hcounting, Stacks.countedLoop_of_nonpos ht hnonpos]
  · rw [htimes, Stacks.countedLoop_of_nonpos ht hnonpos]

theorem counted_loops_repeat_sum :
    (∀ item ∈ twoIntegers.input, item.IsNumber) ∧
    (∀ leaf ∈ (Item.name "integer.+").leaves, leaf.Neutral) ∧ Int32.InRange 3 ∧
    Stacks.run 100 16 { twoIntegers with
        integer := [3, 2, 3],
        exec := .name "exec.do*count" :: .name "integer.+" :: twoIntegers.exec } =
      ⟨{ twoIntegers with integer := [5, 3] }, 16, none⟩ ∧
    Stacks.run 100 22 { twoIntegers with
        integer := [3, 2, 3],
        exec := .name "exec.do*times" :: .name "integer.+" :: twoIntegers.exec } =
      ⟨{ twoIntegers with integer := [5] }, 22, none⟩ := by
  have hin : ∀ item ∈ twoIntegers.input, item.IsNumber := List.forall_mem_singleton.mpr trivial
  have hbody : ∀ leaf ∈ (Item.name "integer.+").leaves, leaf.Neutral := by decide +kernel
  obtain ⟨hcount, htimes⟩ := (counted_loops_repeat 100 twoIntegers 3 (.name "integer.+") hin hbody
    (by decide)).1 (by decide)
  exact ⟨hin, hbody, by decide, hcount.run twoIntegers.exec, htimes.run twoIntegers.exec⟩

end PushFitness
