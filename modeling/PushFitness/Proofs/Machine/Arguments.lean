import PushFitness.Proofs.Machine.Names
import PushFitness.Proofs.Machine.OnTop

/-!
# Arguments: all of them or none

An instruction takes its arguments from the tops of up to three stacks, and two of these may be
the same one. If any argument is missing it does nothing at all; there is no state in which it has
taken one argument and then does not find another. If they are all there it does its work on top:
what lies below the arguments stays where it is, and stacks that have no part in it are not touched.

How many items are needed and taken is counted for each stack (`Instruction.needs`,
`Instruction.takes`). The proofs are about the machine without types, because there the
instructions come in families: one lemma holds for all that take two values of a kind
(`binary_onTop`), one for all that take one value, and one for the moves with a depth.
-/

namespace PushFitness

/-! ## What an instruction needs, takes and touches -/

/-- The stack on which an item is put when it is pushed. -/
def Item.home : Item → Slot
  | int _ => .integer
  | float _ => .float
  | bool _ => .boolean
  | list _ => .exec
  | name _ | hole => .name

namespace Instruction

/-- How many items have to be there, on each stack. -/
def needs : Instruction → Slot → Nat
  | .integerOp _ | .integerCompare _ => Slot.integer.count 2
  | .integerAbs | .integerNeg | .floatFromInteger | .booleanFromInteger => Slot.integer.count 1
  | .floatOp _ | .floatCompare _ => Slot.float.count 2
  | .floatFun _ | .integerFromFloat | .booleanFromFloat => Slot.float.count 1
  | .booleanOp _ => Slot.boolean.count 2
  | .booleanNot | .integerFromBoolean | .floatFromBoolean => Slot.boolean.count 1
  | .move m on => on.slot.count m.arity
  | .moveAt _ on => Slot.integer.count 1 + on.slot.count 1
  | .quote | .combinatorY => Slot.exec.count 1
  | .branch => Slot.boolean.count 1 + Slot.exec.count 2
  | .combinatorK => Slot.exec.count 2
  | .combinatorS => Slot.exec.count 3
  | .doRange => Slot.integer.count 2 + Slot.exec.count 1
  | .doTimes | .doCount => Slot.integer.count 1 + Slot.exec.count 1
  | .inputIndex => Slot.integer.count 1 + Slot.input.count 1
  | .inputAt n => Slot.input.count (n + 1)
  | .constant _ | .stackDepth _ | .noop | .inputAll | .inputAllReversed | .inputDepth => 0

/-- How many of the items are taken off. An input is only read, and of the items that a depth
leads to none is taken. -/
def takes : Instruction → Slot → Nat
  | .moveAt _ _ | .inputIndex => Slot.integer.count 1
  | .inputAt _ => 0
  | i => i.needs

/-- Whether an instruction wants the number on top of the integer stack to be positive. -/
def counts : Instruction → Bool
  | .doTimes | .doCount => true
  | _ => false

/-- Whether everything is there that an instruction needs. -/
def Ready (i : Instruction) (u : Untyped) : Prop :=
  (∀ slot, i.needs slot ≤ (u slot).length) ∧
    (i.counts = true → ∀ n, (u .integer).head? = some (.int n) → 0 < n)

/-- The inputs that an instruction pushes. -/
def fetched (i : Instruction) (u : Untyped) : List Item :=
  match i with
  | .inputIndex =>
    match u .integer with
    | .int d :: _ => (u .input).reverse[Stack.clamp d ((u .input).length - 1)]?.toList
    | _ => []
  | .inputAll | .inputAllReversed => u .input
  | .inputAt n => (u .input).reverse[n]?.toList
  | _ => []

/-- The stacks on which an instruction puts something, or which it empties. -/
def outputs (i : Instruction) (u : Untyped) : List Slot :=
  match i with
  | .integerOp _ | .integerAbs | .integerNeg | .integerFromFloat | .integerFromBoolean
  | .stackDepth _ | .inputDepth => [.integer]
  | .floatOp _ | .floatFun _ | .floatFromInteger | .floatFromBoolean => [.float]
  | .integerCompare _ | .floatCompare _ | .booleanOp _ | .booleanNot | .booleanFromInteger
  | .booleanFromFloat | .constant _ => [.boolean]
  | .move .pop _ | .noop => []
  | .move _ on | .moveAt _ on => [on.slot]
  | .quote => [.code]
  | .branch | .combinatorK | .combinatorS | .combinatorY | .doTimes | .doCount => [.exec]
  | .doRange => [.integer, .exec]
  | .inputIndex | .inputAll | .inputAllReversed | .inputAt _ => (i.fetched u).map Item.home

/-- The stack on which an instruction does not only work on top. -/
def rearranged? : Instruction → Option Slot
  | .move .flush on | .moveAt .yank on | .moveAt .shove on => some on.slot
  | _ => none

end Instruction

namespace Untyped

variable {α : Type} {u v : Untyped} {takes : Slot → Nat} {outputs : List Slot} {ready : Prop}

/-! ## Values of a kind -/

theorem exists_of_bind {β γ : Type} {x : Except Fault β} {f : β → Except Fault γ} {c : γ}
    (h : x >>= f = .ok c) : ∃ b, x = .ok b ∧ f b = .ok c := by
  cases x with
  | error _ => cases h
  | ok b => exact ⟨b, rfl, h⟩

theorem binary_onTop {k : Kind α} {out : Slot} {f : α → α → Option Item}
    (h : u.binary k out f = .ok v) :
    OnTop (Enough (k.slot.count 2) u) (k.slot.count 2) [out] u v := by
  rw [binary] at h
  split at h
  · next b a rest hu =>
      obtain ⟨y, -, h⟩ := exists_of_bind h
      obtain ⟨x, -, h⟩ := exists_of_bind h
      obtain rfl := Except.ok.inj h
      exact onTop_replace_add [b, a] hu _
  · next hfew =>
      obtain rfl := Except.ok.inj h
      refine .of_not fun henough => ?_
      obtain ⟨b, a, rest, hu⟩ := exists_of_two_le (enough_count.mp henough)
      exact hfew b a rest hu

theorem unary_onTop {k : Kind α} {out : Slot} {f : α → Option Item}
    (h : u.unary k out f = .ok v) :
    OnTop (Enough (k.slot.count 1) u) (k.slot.count 1) [out] u v := by
  rw [unary] at h
  split at h
  · next a rest hu =>
      obtain ⟨x, -, h⟩ := exists_of_bind h
      obtain ⟨result, -, h⟩ := exists_of_bind h
      obtain rfl := Except.ok.inj h
      exact onTop_replace_add [a] hu _
  · next hu =>
      obtain rfl := Except.ok.inj h
      refine .of_not fun henough => ?_
      have hlength := enough_count.mp henough
      rw [hu] at hlength
      exact absurd hlength (by decide)

/-! ## Moves -/

theorem move_onTop {m : StackMove} (hm : m ≠ .flush) (on : StackName) :
    OnTop (Enough (on.slot.count m.arity) u) (on.slot.count m.arity)
      ((Instruction.move m on).outputs u) u (u.put on.slot (m.apply (u on.slot))) := by
  by_cases hlong : m.arity ≤ (u on.slot).length
  · obtain ⟨results, hresults, hpop⟩ := StackMove.apply_of_long hm hlong
    rw [hresults]
    refine onTop_put (enough_count.mpr hlong) results fun hout => ?_
    cases m with
    | pop => exact hpop rfl
    | dup | swap | rot | flush => exact absurd List.mem_cons_self hout
  · rw [StackMove.apply_of_short (Nat.lt_of_not_le hlong), put_self]
    exact .of_not fun h => hlong (enough_count.mp h)

theorem moveAt_onTop {m : DepthMove} {on : StackName} (h : u.moveAt m on = .ok v) :
    (¬ Enough (Slot.integer.count 1 + on.slot.count 1) u → v = u) ∧
    (Enough (Slot.integer.count 1 + on.slot.count 1) u → ∃ d, ∀ slot,
      v slot = if slot = on.slot then m.apply d ((u slot).drop (Slot.integer.count 1 slot))
        else (u slot).drop (Slot.integer.count 1 slot)) := by
  rw [enough_depth]
  rw [moveAt] at h
  split at h
  · next hempty =>
      obtain rfl := Except.ok.inj h
      refine ⟨fun _ => rfl, fun henough => absurd ?_ henough.2⟩
      rw [List.isEmpty_iff.mp hempty, List.drop_nil]
  · next hitems =>
      split at h
      · next hints =>
          obtain rfl := Except.ok.inj h
          exact ⟨fun _ => rfl, fun henough => absurd hints henough.1⟩
      · next d rest hints =>
          split at h
          · next hlast =>
              obtain rfl := Except.ok.inj h
              obtain ⟨hon, hrest⟩ := Bool.and_eq_true_iff.mp hlast
              refine ⟨fun _ => rfl, fun henough => absurd ?_ henough.2⟩
              rw [of_decide_eq_true hon]
              show (u .integer).drop 1 = []
              rw [hints]
              exact List.isEmpty_iff.mp hrest
          · next hmore =>
              obtain ⟨n, -, h⟩ := exists_of_bind h
              obtain rfl := Except.ok.inj h
              have hrest : rest = (u .integer).drop 1 := by rw [hints]; rfl
              have hbelow (slot : Slot) :
                  u.put .integer rest slot = (u slot).drop (Slot.integer.count 1 slot) := by
                rw [hrest, put_drop]
              have hleft : (u on.slot).drop (Slot.integer.count 1 on.slot) ≠ [] := by
                by_cases hon : on = .integer
                · subst hon
                  rw [← hbelow]
                  exact fun hrest => hmore (by rw [show rest = [] from hrest]; rfl)
                · rw [Slot.count_of_ne (mt StackName.slot_eq_integer_iff.mp hon)]
                  exact fun hnil => hitems (List.isEmpty_iff.mpr hnil)
              refine ⟨fun hnot => ?_, fun _ => ⟨n, fun slot => ?_⟩⟩
              · exact absurd ⟨by rw [hints]; exact List.cons_ne_nil d rest, hleft⟩ hnot
              · rw [put, ← hbelow]
                split
                · next hslot => rw [hslot]
                · rfl

theorem yankDup_onTop {on : StackName} (h : u.moveAt .yankDup on = .ok v) :
    OnTop (Enough (Slot.integer.count 1 + on.slot.count 1) u) (Slot.integer.count 1) [on.slot]
      u v := by
  obtain ⟨hidle, hdone⟩ := moveAt_onTop h
  refine ⟨hidle, fun henough slot => ?_⟩
  obtain ⟨d, hslot⟩ := hdone henough
  rw [hslot]
  split
  · next hon =>
      have hbelow := (enough_depth.mp henough).2
      rw [← hon] at hbelow
      obtain ⟨x, -, hyank⟩ := Stack.yank_of_ne_nil d hbelow
      exact ⟨[x], Stack.yankDup_of_yank (congrArg List.head? hyank),
        fun hout => absurd (List.mem_singleton.mpr hon) hout⟩
  · exact ⟨[], rfl, fun _ => rfl⟩

/-! ## Items to be executed -/

theorem eq_of_operand {item : Item} {n : Int} (h : Kind.integer.operand item = .ok n) :
    item = .int n := by
  cases item with
  | int m => exact congrArg Item.int (Except.ok.inj h)
  | float _ | bool _ | name _ | list _ | hole => cases h

theorem countedLoop_onTop {wrapBody : Item → Item} (h : u.countedLoop wrapBody = .ok v) :
    OnTop (Enough (Slot.integer.count 1 + Slot.exec.count 1) u ∧
        ∀ n, (u .integer).head? = some (.int n) → 0 < n)
      (Slot.integer.count 1 + Slot.exec.count 1) [.exec] u v := by
  rw [countedLoop] at h
  split at h
  · next count ints body exec hints hexec =>
      obtain ⟨n, hn, h⟩ := exists_of_bind h
      have htop : (u .integer).head? = some (.int n) := by
        rw [hints, eq_of_operand hn, List.head?_cons]
      split at h
      · next hn =>
          obtain rfl := Except.ok.inj h
          exact .of_not fun hready => absurd (hready.2 n htop) (Int.not_lt.mpr hn)
      · next hn =>
          obtain rfl := Except.ok.inj h
          have hpositive : ∀ m, (u .integer).head? = some (.int m) → 0 < m := by
            intro m hm
            rw [htop, Option.some.injEq, Item.int.injEq] at hm
            omega
          have hdone (loop : Item) := onTop_replace_replace (by decide) [count] [] [body] [loop]
            hints hexec (fun _ => rfl) (List.mem_singleton_self Slot.exec)
          exact (hdone _).congr (and_iff_left hpositive).symm
  · next hfew =>
      obtain rfl := Except.ok.inj h
      refine .of_not fun hready => ?_
      obtain ⟨hints, hexec⟩ := (enough_add (by decide)).mp hready.1
      obtain ⟨count, ints, hu⟩ := List.exists_cons_of_length_pos hints
      obtain ⟨body, exec, hu'⟩ := List.exists_cons_of_length_pos hexec
      exact hfew count ints body exec hu hu'

theorem rangeLoop_onTop (h : u.rangeLoop = .ok v) :
    OnTop (Enough (Slot.integer.count 2 + Slot.exec.count 1) u)
      (Slot.integer.count 2 + Slot.exec.count 1) [.integer, .exec] u v := by
  rw [rangeLoop] at h
  split at h
  · next stop start ints body exec hints hexec =>
      obtain ⟨y, -, h⟩ := exists_of_bind h
      obtain ⟨x, -, h⟩ := exists_of_bind h
      obtain rfl := Except.ok.inj h
      have hstacks : Slot.integer ∈ [Slot.integer, .exec] ∧ Slot.exec ∈ [Slot.integer, .exec] := by
        decide
      have hreplace (later : List Item) := onTop_replace_replace (by decide) [stop, start] [.int x]
        [body] later hints hexec (absurd hstacks.1) hstacks.2
      split
      · exact hreplace [body]
      · exact hreplace [body, _]
  · next hfew =>
      obtain rfl := Except.ok.inj h
      refine .of_not fun henough => ?_
      obtain ⟨hints, hexec⟩ := (enough_add (by decide)).mp henough
      obtain ⟨stop, start, ints, hu⟩ := exists_of_two_le hints
      obtain ⟨body, exec, hu'⟩ := List.exists_cons_of_length_pos hexec
      exact hfew stop start ints body exec hu hu'

theorem branch_onTop (h : u.branch = .ok v) :
    OnTop (Enough (Slot.boolean.count 1 + Slot.exec.count 2) u)
      (Slot.boolean.count 1 + Slot.exec.count 2) [.exec] u v := by
  rw [branch] at h
  split at h
  · next condition booleans a b exec hbooleans hexec =>
      obtain ⟨x, -, h⟩ := exists_of_bind h
      obtain rfl := Except.ok.inj h
      exact onTop_replace_replace (by decide) [condition] [] [a, b] [if x then a else b] hbooleans
        hexec (fun _ => rfl) List.mem_cons_self
  · next hfew =>
      obtain rfl := Except.ok.inj h
      refine .of_not fun henough => ?_
      obtain ⟨hbooleans, hexec⟩ := (enough_add (by decide)).mp henough
      obtain ⟨condition, booleans, hu⟩ := List.exists_cons_of_length_pos hbooleans
      obtain ⟨a, b, exec, hu'⟩ := exists_of_two_le hexec
      exact hfew condition booleans a b exec hu hu'

theorem quote_onTop {maxPoints : Int} (h : u.apply maxPoints .quote = .ok v) :
    OnTop (Enough (Slot.exec.count 1) u) (Slot.exec.count 1) [.code] u v := by
  rw [apply] at h
  split at h
  · next item exec hexec =>
      obtain rfl := Except.ok.inj h
      exact onTop_replace_add [item] hexec item
  · next hnil =>
      obtain rfl := Except.ok.inj h
      exact .of_not fun henough => absurd (enough_count.mp henough) (by simp [hnil])

theorem combinatorK_onTop {maxPoints : Int} (h : u.apply maxPoints .combinatorK = .ok v) :
    OnTop (Enough (Slot.exec.count 2) u) (Slot.exec.count 2) [.exec] u v := by
  rw [apply] at h
  split at h
  · next a b exec hexec =>
      obtain rfl := Except.ok.inj h
      exact onTop_replace [a, b] [a] hexec List.mem_cons_self
  · next hfew =>
      obtain rfl := Except.ok.inj h
      refine .of_not fun henough => ?_
      obtain ⟨a, b, exec, hu⟩ := exists_of_two_le (enough_count.mp henough)
      exact hfew a b exec hu

/-- Over the limit for its result, the three items are replaced by themselves. -/
theorem combinatorS_onTop {maxPoints : Int} (h : u.apply maxPoints .combinatorS = .ok v) :
    OnTop (Enough (Slot.exec.count 3) u) (Slot.exec.count 3) [.exec] u v := by
  rw [apply] at h
  split at h
  · next a b c exec hexec =>
      have hreplace (results : List Item) :=
        onTop_replace [a, b, c] results hexec (List.mem_singleton_self Slot.exec)
      split at h
      · obtain rfl := Except.ok.inj h
        exact hreplace [a, c, .list [b, c]]
      · obtain rfl := Except.ok.inj h
        have hsame : u.put .exec ([a, b, c] ++ exec) = u := by
          show u.put .exec (a :: b :: c :: exec) = u
          rw [← hexec, put_self]
        have hreplaced := hreplace [a, b, c]
        rwa [hsame] at hreplaced
  · next hfew =>
      obtain rfl := Except.ok.inj h
      refine .of_not fun henough => ?_
      obtain ⟨a, b, c, exec, hu⟩ := exists_of_three_le (enough_count.mp henough)
      exact hfew a b c exec hu

theorem combinatorY_onTop {maxPoints : Int} (h : u.apply maxPoints .combinatorY = .ok v) :
    OnTop (Enough (Slot.exec.count 1) u) (Slot.exec.count 1) [.exec] u v := by
  rw [apply] at h
  split at h
  · next a exec hexec =>
      obtain rfl := Except.ok.inj h
      exact onTop_replace [a] [a, .list [.name "exec.y", a]] hexec List.mem_cons_self
  · next hnil =>
      obtain rfl := Except.ok.inj h
      exact .of_not fun henough => absurd (enough_count.mp henough) (by simp [hnil])

/-! ## Inputs -/

theorem add_onTop (hready : ready) (out : Slot) (x : Item) :
    OnTop ready 0 [out] u (u.add out x) := by
  rw [← Slot.count_zero out]
  exact onTop_put hready [x] fun h => absurd List.mem_cons_self h

theorem push_eq_add (u : Untyped) (item : Item) : ∃ x, u.push item = u.add item.home x := by
  cases item <;> exact ⟨_, rfl⟩

theorem foldl_push_onTop (hready : ready) (items : List Item) :
    OnTop ready 0 (items.map Item.home) u (items.foldl push u) := by
  induction items generalizing u with
  | nil => exact .of_results hready (fun _ => []) (fun _ => rfl) (fun _ _ => rfl)
  | cons item items ih =>
      obtain ⟨x, hx⟩ := push_eq_add u item
      refine ⟨fun h => absurd hready h, fun _ slot => ?_⟩
      obtain ⟨results, hresults, hnone⟩ :=
        (add_onTop (u := u) hready item.home x).done hready slot
      obtain ⟨results', hresults', hnone'⟩ := (ih (u := u.add item.home x)).done hready slot
      refine ⟨results' ++ results, ?_, fun hslot => ?_⟩
      · rw [List.foldl_cons, hx, hresults', Pi.zero_apply, List.drop_zero, hresults,
          List.append_assoc]
        rfl
      · rw [List.map_cons, List.mem_cons, not_or] at hslot
        rw [hnone (by simpa using hslot.1), hnone' hslot.2]
        rfl

theorem inputIndex_onTop (h : u.inputIndex = .ok v) :
    OnTop (Enough (Slot.integer.count 1 + Slot.input.count 1) u) (Slot.integer.count 1)
      ((Instruction.inputIndex.fetched u).map Item.home) u v := by
  rw [inputIndex] at h
  split at h
  · next top ints input inputs hints hinput =>
      obtain ⟨d, hd, h⟩ := exists_of_bind h
      have hdepth : Stack.clamp d inputs.length < (input :: inputs).reverse.length := by
        rw [List.length_reverse]
        exact Nat.lt_succ_of_le (Stack.clamp_le d _)
      have hitem := List.getElem?_eq_getElem hdepth
      rw [hitem] at h
      obtain rfl := Except.ok.inj h
      let item := (input :: inputs).reverse[Stack.clamp d inputs.length]
      have hfetched : Instruction.inputIndex.fetched u = [item] := by
        simp only [Instruction.fetched, hints, eq_of_operand hd, hinput, List.length_cons,
          Nat.add_sub_cancel, hitem, Option.toList_some, item]
      obtain ⟨x, hx⟩ := push_eq_add (u.put .integer ints) item
      have hrest : ints = (u .integer).drop 1 := by rw [hints]; rfl
      rw [hfetched, hx, hrest]
      exact onTop_put_add ((enough_add (by decide)).mpr ⟨by simp [hints], by simp [hinput]⟩) x
  · next hfew =>
      obtain rfl := Except.ok.inj h
      refine .of_not fun henough => ?_
      obtain ⟨hints, hinput⟩ := (enough_add (by decide)).mp henough
      obtain ⟨top, ints, hu⟩ := List.exists_cons_of_length_pos hints
      obtain ⟨input, inputs, hu'⟩ := List.exists_cons_of_length_pos hinput
      exact hfew top ints input inputs hu hu'

theorem inputAt_onTop {maxPoints : Int} {n : Nat}
    (h : u.apply maxPoints (.inputAt n) = .ok v) :
    OnTop (Enough (Slot.input.count (n + 1)) u) 0
      (((Instruction.inputAt n).fetched u).map Item.home) u v := by
  rw [apply] at h
  split at h
  · next item hitem =>
      obtain rfl := Except.ok.inj h
      obtain ⟨x, hx⟩ := push_eq_add u item
      have hfetched : (Instruction.inputAt n).fetched u = [item] := by
        rw [Instruction.fetched, hitem, Option.toList_some]
      have hn := (List.getElem?_eq_some_iff.mp hitem).1
      rw [List.length_reverse] at hn
      rw [hfetched, hx]
      exact add_onTop (enough_count.mpr hn) item.home x
  · next hnone =>
      obtain rfl := Except.ok.inj h
      rw [List.getElem?_eq_none_iff, List.length_reverse] at hnone
      exact .of_not fun henough => absurd (enough_count.mp henough) (by omega)

/-! ## All instructions -/

/-- What an instruction leaves on the stacks if it works on top of all of them. -/
theorem apply_onTop_of_counts {maxPoints : Int} {i : Instruction} (hcounts : i.counts = false)
    (hi : i.rearranged? = none) (h : u.apply maxPoints i = .ok v) :
    OnTop (Enough i.needs u) i.takes (i.outputs u) u v := by
  cases i with
  | integerOp _ | integerCompare _ | floatOp _ | floatCompare _ | booleanOp _ =>
      exact binary_onTop h
  | integerAbs | integerNeg | integerFromFloat | integerFromBoolean | floatFun _
  | floatFromInteger | floatFromBoolean | booleanNot | booleanFromInteger | booleanFromFloat =>
      exact unary_onTop h
  | constant _ | stackDepth _ | inputDepth =>
      obtain rfl := Except.ok.inj h
      exact add_onTop enough_zero _ _
  | noop =>
      obtain rfl := Except.ok.inj h
      exact .of_results enough_zero (fun _ => []) (fun _ => rfl) (fun _ _ => rfl)
  | move m on =>
      obtain rfl := Except.ok.inj h
      have hm : m ≠ .flush := by
        rintro rfl
        cases hi
      exact move_onTop hm on
  | moveAt m on =>
      cases m with
      | yank | shove => cases hi
      | yankDup => exact yankDup_onTop h
  | branch => exact branch_onTop h
  | doRange => exact rangeLoop_onTop h
  | inputIndex => exact inputIndex_onTop h
  | inputAll =>
      obtain rfl := Except.ok.inj h
      have hall := foldl_push_onTop (enough_zero (u := u)) (u .input).reverse (u := u)
      rw [List.map_reverse] at hall
      exact hall.mono fun slot hslot => List.mem_reverse.mp hslot
  | inputAllReversed =>
      obtain rfl := Except.ok.inj h
      exact foldl_push_onTop enough_zero (u .input)
  | inputAt n => exact inputAt_onTop h
  | quote => exact quote_onTop h
  | combinatorK => exact combinatorK_onTop h
  | combinatorS => exact combinatorS_onTop h
  | combinatorY => exact combinatorY_onTop h
  | doTimes | doCount => exact Bool.noConfusion hcounts

end Untyped

namespace Instruction

variable {i : Instruction} {u v : Untyped} {slot : Slot}

theorem ready_iff : i.Ready u ↔ Untyped.Enough i.needs u ∧
    (i.counts = true → ∀ n, (u .integer).head? = some (.int n) → 0 < n) := Iff.rfl

theorem ready_iff_enough (h : i.counts = false) : i.Ready u ↔ Untyped.Enough i.needs u := by
  rw [ready_iff, and_iff_left]
  intro hcounts
  rw [h] at hcounts
  cases hcounts

theorem apply_onTop {maxPoints : Int} (hi : i.rearranged? = none)
    (h : Untyped.apply maxPoints u i = .ok v) :
    Untyped.OnTop (i.Ready u) i.takes (i.outputs u) u v := by
  by_cases hcounts : i.counts = true
  · cases i with
    | doTimes | doCount =>
        refine (Untyped.countedLoop_onTop h).congr ?_
        rw [ready_iff, forall_prop_of_true hcounts]
        rfl
    | _ => cases hcounts
  · have hfalse : i.counts = false := eq_false_of_ne_true hcounts
    exact (Untyped.apply_onTop_of_counts hfalse hi h).congr (ready_iff_enough hfalse).symm

/-- What an instruction does that has its arguments: stacks that it neither takes from nor puts
something on are unchanged, and on the others everything below the arguments stays, with nothing
on top unless it is a result. Only `flush` empties its stack, and `yank` and `shove` move one item
to another place on theirs. -/
structure Works (i : Instruction) (u v : Untyped) : Prop where
  others : ∀ slot, i.takes slot = 0 → slot ∉ i.outputs u → v slot = u slot
  below : ∀ slot, i.rearranged? ≠ some slot →
    ∃ results, v slot = results ++ (u slot).drop (i.takes slot) ∧
      (slot ∉ i.outputs u → results = [])
  emptied : ∀ on, i = .move .flush on → v on.slot = []
  moved : ∀ on, i = .moveAt .yank on ∨ i = .moveAt .shove on →
    Stack.OneMoved ((u on.slot).drop (i.takes on.slot)) (v on.slot)

theorem Works.of_onTop (hi : i.rearranged? = none)
    (h : ∀ slot, ∃ results, v slot = results ++ (u slot).drop (i.takes slot) ∧
      (slot ∉ i.outputs u → results = [])) : i.Works u v where
  others slot htakes hout := by
    obtain ⟨results, hresults, hnone⟩ := h slot
    rw [hresults, hnone hout, htakes]
    rfl
  below slot _ := h slot
  emptied on hon := by
    rw [hon] at hi
    cases hi
  moved on hon := by
    rcases hon with hon | hon
    · rw [hon] at hi
      cases hi
    · rw [hon] at hi
      cases hi

theorem flush_works (on : StackName) : (move .flush on).Works u (u.put on.slot []) where
  others slot _ hout := if_neg (mt List.mem_singleton.mpr hout)
  below slot hslot := by
    have hother : slot ≠ on.slot := fun h => hslot (congrArg some h.symm)
    refine ⟨[], ?_, fun _ => rfl⟩
    show u.put on.slot [] slot = (u slot).drop (on.slot.count 0 slot)
    rw [Untyped.put, if_neg hother, Slot.count_of_ne hother, List.drop_zero]
  emptied other hother := by
    cases hother
    exact if_pos rfl
  moved other hother := by
    rcases hother with hother | hother
    · cases hother
    · cases hother

theorem moveAt_works {m : DepthMove} {on : StackName} (hm : m.copies = false)
    (hready : (moveAt m on).Ready u) (h : u.moveAt m on = .ok v) : (moveAt m on).Works u v := by
  have henough := (ready_iff_enough rfl).mp hready
  obtain ⟨d, hslot⟩ := (Untyped.moveAt_onTop h).2 henough
  have hbelow := (Untyped.enough_depth.mp henough).2
  have hon : (moveAt m on).rearranged? = some on.slot := by
    cases m with
    | yankDup => cases hm
    | yank | shove => rfl
  constructor
  case others =>
    intro slot htakes hout
    rw [hslot, if_neg (mt List.mem_singleton.mpr hout)]
    exact congrArg (fun n => (u slot).drop n) htakes
  case below =>
    intro slot hother
    rw [hon] at hother
    rw [hslot, if_neg fun h => hother (congrArg some h.symm)]
    exact ⟨[], rfl, fun _ => rfl⟩
  case emptied =>
    intro other hother
    cases hother
  case moved =>
    intro other hother
    rcases hother with hother | hother
    · cases hother
      rw [hslot, if_pos rfl]
      exact Stack.yank_oneMoved d hbelow
    · cases hother
      rw [hslot, if_pos rfl]
      exact Stack.shove_oneMoved d hbelow

theorem moveAt_idle {m : DepthMove} {on : StackName} (hnot : ¬ (moveAt m on).Ready u)
    (h : u.moveAt m on = .ok v) : v = u :=
  (Untyped.moveAt_onTop h).1 fun henough => hnot ((ready_iff_enough rfl).mpr henough)

/-- All or nothing, and only on top. -/
theorem apply_works {maxPoints : Int} (h : Untyped.apply maxPoints u i = .ok v) :
    (¬ i.Ready u → v = u) ∧ (i.Ready u → i.Works u v) := by
  cases hi : i.rearranged? with
  | none =>
      have honTop := apply_onTop hi h
      exact ⟨honTop.idle, fun hready => .of_onTop hi (honTop.done hready)⟩
  | some slot =>
      match i, hi with
      | .move .flush on, _ =>
          obtain rfl := Except.ok.inj h
          have hready : (move .flush on).Ready u := by
            rw [ready_iff_enough rfl]
            exact Untyped.enough_count.mpr (Nat.zero_le _)
          exact ⟨fun hnot => absurd hready hnot, fun _ => flush_works on⟩
      | .moveAt .yank on, _ | .moveAt .shove on, _ =>
          exact ⟨fun hnot => moveAt_idle hnot h, fun hready => moveAt_works rfl hready h⟩

end Instruction

/-- For every name of an instruction, on any stacks: if an argument is missing nothing changes, and
if all are there the instruction works on top of the stacks it is about. -/
theorem instructions_are_local (maxPoints : Int) (s : Stacks) {name : String} {i : Instruction}
    (h : i.Named name) :
    ∃ t, s.execute maxPoints (.name name) = .ok t ∧
      (¬ i.Ready s.items → t = s) ∧ (i.Ready s.items → i.Works s.items t.items) := by
  have hitems : Untyped.apply maxPoints s.items i = .ok (s.apply maxPoints i).items :=
    Untyped.apply_items s i
  obtain ⟨hidle, hworks⟩ := Instruction.apply_works hitems
  refine ⟨s.apply maxPoints i, ?_, fun hnot => ?_, hworks⟩
  · exact Stacks.execute_name h.ofName?_eq
  · exact Stacks.items_injective (hidle hnot)

/-- The depth is an integer too: one integer is not enough for `integer.yank`. -/
theorem instructions_are_local_yank :
    Instruction.Named "integer.yank" (.moveAt .yank .integer) ∧
    ({ Stacks.empty with integer := [2], code := [.int 5] }).execute 100 (.name "integer.yank") =
      .ok { Stacks.empty with integer := [2], code := [.int 5] } ∧
    ∃ t, ({ Stacks.empty with integer := [2, 7, 8, 9], code := [.int 5] }).execute 100
        (.name "integer.yank") = .ok t ∧
      t.items .code = [.int 5] ∧ Stack.OneMoved [.int 7, .int 8, .int 9] (t.items .integer) := by
  have hnamed : Instruction.Named "integer.yank" (.moveAt .yank .integer) :=
    .builtin (by decide +kernel)
  refine ⟨hnamed, ?_, ?_⟩
  · obtain ⟨t, ht, hidle, -⟩ := instructions_are_local 100
      { Stacks.empty with integer := [2], code := [.int 5] } hnamed
    rw [ht, hidle]
    intro hready
    have hone := hready.1 .integer
    exact absurd hone (by decide)
  · obtain ⟨t, ht, -, hworks⟩ := instructions_are_local 100
      { Stacks.empty with integer := [2, 7, 8, 9], code := [.int 5] } hnamed
    have hworks := hworks ⟨by decide, fun hcounts => Bool.noConfusion hcounts⟩
    exact ⟨t, ht, hworks.others .code rfl (by decide), hworks.moved .integer (.inl rfl)⟩

end PushFitness
