import PushFitness.Proofs.Machine.Effects
import PushFitness.Proofs.Machine.Names

/-!
# Instructions that leave the pending items alone

Most instructions neither read nor change what is still to be executed. For them the
exec stack is a parameter: with other pending items they do the same to the other six
stacks, and the pending items stay what they were (`apply_withPending`). That is more than
leaving the exec stack unchanged, since an instruction could look at it and put the answer
elsewhere, as `exec.stackdepth` does.

Which instructions these are can be told from their names. All that work on the exec stack
are called `exec.` something, with one exception, `code.quote`. An input that is fetched
could be a list and would then be pending, so the inputs have to be numbers.
-/

namespace PushFitness

variable {maxPoints : Int} {s : Stacks}

/-! ## By instruction -/

namespace Instruction

/-- Whether an instruction reads or changes what is still to be executed. -/
def usesPending : Instruction → Bool
  | .move _ .exec | .moveAt _ .exec | .stackDepth .exec => true
  | .quote | .branch | .combinatorK | .combinatorS | .combinatorY => true
  | .doRange | .doTimes | .doCount => true
  | _ => false

end Instruction

namespace Stacks

/-- The same stacks with other items to be executed. -/
def withPending (s : Stacks) (exec : List Item) : Stacks := { s with exec := exec }

theorem withPending_exec (s : Stacks) : s.withPending s.exec = s := rfl

theorem push_withPending {item : Item} (hitem : item.IsNumber) (exec : List Item) :
    (s.withPending exec).push item = (s.push item).withPending exec := by
  cases item with
  | int _ | float _ => rfl
  | bool _ | name _ | list _ | hole => exact hitem.elim

theorem pushAll_withPending {items : List Item} (hitems : ∀ item ∈ items, item.IsNumber)
    (exec : List Item) :
    (s.withPending exec).pushAll items = (s.pushAll items).withPending exec := by
  induction items generalizing s with
  | nil => rfl
  | cons item items ih =>
      have hhead := push_withPending (s := s) (hitems item List.mem_cons_self) exec
      have htail := ih (s := s.push item) fun x hx => hitems x (List.mem_cons_of_mem _ hx)
      simp only [pushAll, List.foldl_cons, hhead] at htail ⊢
      exact htail

theorem rearrange_withPending (move : {α : Type} → List α → List α) {on : StackName}
    (hon : on ≠ .exec) (exec : List Item) :
    (s.withPending exec).rearrange move on = (s.rearrange move on).withPending exec := by
  cases on with
  | exec => exact absurd rfl hon
  | integer | float | boolean | code | name => rfl

theorem depth_withPending {on : StackName} (hon : on ≠ .exec) (exec : List Item) :
    (s.withPending exec).depth on = s.depth on := by
  cases on with
  | exec => exact absurd rfl hon
  | integer | float | boolean | code | name => rfl

theorem moveAt_of_cons {d : Int} {rest : List Int} (h : s.integer = d :: rest) (m : DepthMove)
    (on : StackName) : s.moveAt m on =
      if depth { s with integer := rest } on = 0 then s
      else rearrange { s with integer := rest } (m.apply d) on := by
  rw [moveAt, h]

theorem moveAt_withPending (m : DepthMove) {on : StackName} (hon : on ≠ .exec) (exec : List Item) :
    (s.withPending exec).moveAt m on = (s.moveAt m on).withPending exec := by
  cases hs : s.integer with
  | nil => simp only [moveAt, withPending, hs]
  | cons d rest =>
      have hdepth := depth_withPending (s := { s with integer := rest }) hon exec
      have hmoved := rearrange_withPending (s := { s with integer := rest }) (m.apply d) hon exec
      rw [moveAt_of_cons hs, moveAt_of_cons (s := s.withPending exec) hs]
      show (if depth (withPending { s with integer := rest } exec) on = 0 then s.withPending exec
        else rearrange (withPending { s with integer := rest } exec) (m.apply d) on) = _
      rw [hdepth, hmoved]
      split
      · rfl
      · rfl

theorem inputIndex_withPending (hin : ∀ item ∈ s.input, item.IsNumber) (exec : List Item) :
    (s.withPending exec).apply maxPoints .inputIndex =
      (s.apply maxPoints .inputIndex).withPending exec := by
  cases hinput : s.input with
  | nil => simp only [apply, withPending, hinput]
  | cons x inputs =>
      cases hints : s.integer with
      | nil => simp only [apply, withPending, hinput, hints]
      | cons d ints =>
          simp only [apply, withPending, hinput, hints]
          split
          · next item hitem =>
              have hmem : item ∈ s.input := by
                rw [hinput]
                exact List.mem_reverse.mp (List.mem_of_getElem? hitem)
              have hpush := push_withPending (s := { s with integer := ints }) (hin item hmem) exec
              simp only [withPending, hinput] at hpush
              exact hpush
          · rw [hints, hinput]

/-- An instruction that does not use the pending items does the same whatever they are. -/
theorem apply_withPending {i : Instruction} (hi : i.usesPending = false)
    (hin : ∀ item ∈ s.input, item.IsNumber) (exec : List Item) :
    (s.withPending exec).apply maxPoints i = (s.apply maxPoints i).withPending exec := by
  cases i with
  | integerOp _ | integerCompare _ =>
      rcases h : s.integer with _ | ⟨b, _ | ⟨a, rest⟩⟩ <;> simp only [apply, withPending, h]
  | integerAbs | integerNeg | floatFromInteger | booleanFromInteger =>
      rcases h : s.integer with _ | ⟨a, rest⟩ <;> simp only [apply, withPending, h]
  | floatOp _ | floatCompare _ =>
      rcases h : s.float with _ | ⟨b, _ | ⟨a, rest⟩⟩ <;> simp only [apply, withPending, h]
  | floatFun _ | integerFromFloat | booleanFromFloat =>
      rcases h : s.float with _ | ⟨a, rest⟩ <;> simp only [apply, withPending, h]
  | booleanOp _ =>
      rcases h : s.boolean with _ | ⟨b, _ | ⟨a, rest⟩⟩ <;> simp only [apply, withPending, h]
  | booleanNot | integerFromBoolean | floatFromBoolean =>
      rcases h : s.boolean with _ | ⟨a, rest⟩ <;> simp only [apply, withPending, h]
  | constant _ | noop | inputDepth => rfl
  | move m on =>
      have hon : on ≠ .exec := by
        rintro rfl
        exact Bool.noConfusion hi
      exact rearrange_withPending m.apply hon exec
  | moveAt m on =>
      have hon : on ≠ .exec := by
        rintro rfl
        exact Bool.noConfusion hi
      exact moveAt_withPending m hon exec
  | stackDepth on =>
      cases on with
      | exec => exact Bool.noConfusion hi
      | integer | float | boolean | code | name => rfl
  | inputIndex => exact inputIndex_withPending hin exec
  | inputAll =>
      exact pushAll_withPending (fun item h => hin item (List.mem_reverse.mp h)) exec
  | inputAllReversed => exact pushAll_withPending hin exec
  | inputAt n =>
      have hinput : (s.withPending exec).input = s.input := rfl
      rw [apply, apply, hinput]
      split
      · next item hitem =>
          exact push_withPending (hin item (List.mem_reverse.mp (List.mem_of_getElem? hitem))) exec
      · rfl
  | quote | branch | combinatorK | combinatorS | combinatorY | doRange | doTimes | doCount =>
      exact Bool.noConfusion hi

theorem apply_exec_eq {i : Instruction} (hi : i.usesPending = false)
    (hin : ∀ item ∈ s.input, item.IsNumber) : (s.apply maxPoints i).exec = s.exec := by
  have h : (s.withPending s.exec).apply maxPoints i = _ := apply_withPending hi hin s.exec
  rw [withPending_exec] at h
  rw [h]
  rfl

end Stacks

end PushFitness
