import PushFitness.Proofs.Int32
import PushFitness.Proofs.Machine.Moves
import PushFitness.Proofs.Machine.Stepping

/-!
# What an instruction can do to each stack

Everything that is shown about runs is shown about one instruction first, and an
instruction does little to any one stack. This file says how little, once for every
stack (`apply_changed`), so that an invariant of runs need not go through the
instructions again.

On every stack but the exec stack at most one item is new: what an instruction
leaves is part of what it found, in some order, with or without one more item on
top (`OneNew`). What is known of the new item is a parameter of the relation. The
exec stack is where programs are taken apart and put together, so its possible
changes are listed one by one (`ExecChange`). The input stack is never changed.

Two thirds of the instructions compute with values and leave the stacks of programs
alone (`apply_computed`). Some of these fetch inputs and push what they find by its
kind. That a fetched input does not land among the programs is where the input
stack has to hold numbers only; that at most one is fetched is where it has to hold
at most one.
-/

namespace PushFitness

variable {α : Type} {maxPoints : Int} {s : Stacks}

/-! ## At most one new item -/

/-- What is left of `xs` after at most one item was put on a part of it, `new` being
known of that item. -/
def OneNew (new : α → Prop) (xs ys : List α) : Prop :=
  ys.Subperm xs ∨ ∃ x rest, new x ∧ rest.Subperm xs ∧ ys = x :: rest

namespace OneNew

variable {new : α → Prop} {xs ys : List α}

theorem same : OneNew new xs xs := .inl (.refl _)

theorem ofPart (h : ys.Subperm xs) : OneNew new xs ys := .inl h

theorem ofPush {x : α} {rest : List α} (hx : new x) (h : rest.Subperm xs) :
    OneNew new xs (x :: rest) := .inr ⟨x, rest, hx, h, rfl⟩

theorem length_le (h : OneNew new xs ys) : ys.length ≤ xs.length + 1 := by
  rcases h with h | ⟨x, rest, -, h, rfl⟩
  · exact Nat.le_succ_of_le h.length_le
  · exact Nat.succ_le_succ h.length_le

theorem forall_mem {p : α → Prop} (h : OneNew new xs ys) (hxs : ∀ x ∈ xs, p x)
    (hnew : ∀ x, new x → p x) : ∀ y ∈ ys, p y := by
  rcases h with h | ⟨x, rest, hx, h, rfl⟩
  · exact fun y hy => hxs y (h.subset hy)
  · intro y hy
    rcases List.mem_cons.mp hy with rfl | hy
    · exact hnew y hx
    · exact hxs y (h.subset hy)

end OneNew

theorem rest_subperm {x : α} {xs rest : List α} (h : xs = x :: rest) : rest.Subperm xs := by
  rw [h]
  exact (List.sublist_cons_self x rest).subperm

theorem rest_subperm_two {x y : α} {xs rest : List α} (h : xs = x :: y :: rest) :
    rest.Subperm xs := by
  rw [h]
  exact (List.Sublist.cons x (List.sublist_cons_self y rest)).subperm

theorem skip_subperm (x y : α) (rest : List α) : (x :: rest).Subperm (x :: y :: rest) :=
  ((List.sublist_cons_self y rest).cons_cons x).subperm

theorem branch_subperm (condition : Bool) (x y : α) (rest : List α) :
    ((if condition then x else y) :: rest).Subperm (x :: y :: rest) := by
  cases condition with
  | true => exact skip_subperm x y rest
  | false => exact (List.sublist_cons_self x _).subperm

theorem StackMove.oneNew (m : StackMove) {new : α → Prop} {xs : List α}
    (h : ∀ x ∈ xs, new x) : OneNew new xs (m.apply xs) := by
  rcases m.apply_cases xs with hpart | ⟨x, hx, heq⟩
  · exact .ofPart hpart
  · rw [heq]
    exact .ofPush (h x hx) (.refl _)

theorem DepthMove.oneNew (m : DepthMove) (depth : Int) {new : α → Prop} {xs : List α}
    (h : ∀ x ∈ xs, new x) : OneNew new xs (m.apply depth xs) := by
  rcases m.apply_cases depth xs with hpart | ⟨x, hx, heq⟩
  · exact .ofPart hpart
  · rw [heq]
    exact .ofPush (h x hx) (.refl _)

/-! ## Pushing an input -/

def Item.IsNumber : Item → Prop
  | .int _ | .float _ => True
  | .bool _ | .name _ | .list _ | .hole => False

namespace Stacks

structure SamePrograms (s t : Stacks) : Prop where
  exec : t.exec = s.exec
  code : t.code = s.code
  name : t.name = s.name
  input : t.input = s.input

theorem SamePrograms.trans {t u : Stacks} (h : s.SamePrograms t) (h' : t.SamePrograms u) :
    s.SamePrograms u :=
  ⟨h'.exec.trans h.exec, h'.code.trans h.code, h'.name.trans h.name, h'.input.trans h.input⟩

theorem push_samePrograms (s : Stacks) {item : Item} (h : item.IsNumber) :
    s.SamePrograms (s.push item) := by
  cases item with
  | int _ | float _ => exact ⟨rfl, rfl, rfl, rfl⟩
  | bool _ | name _ | list _ | hole => exact h.elim

theorem pushAll_samePrograms (s : Stacks) {items : List Item}
    (h : ∀ item ∈ items, item.IsNumber) : s.SamePrograms (s.pushAll items) := by
  induction items generalizing s with
  | nil => exact ⟨rfl, rfl, rfl, rfl⟩
  | cons item items ih =>
      have htail := ih (s.push item) fun x hx => h x (List.mem_cons_of_mem _ hx)
      exact (push_samePrograms s (h item List.mem_cons_self)).trans htail

/-! ## Moves on a named stack -/

/-- A move with a depth does nothing, or takes the depth and rearranges one stack. -/
theorem moveAt_cases (s : Stacks) (m : DepthMove) (on : StackName) : s.moveAt m on = s ∨
    ∃ d rest, s.integer = d :: rest ∧
      s.moveAt m on = { s with integer := rest }.rearrange (m.apply d) on := by
  rw [moveAt]
  split
  · exact .inl rfl
  · next d rest hs =>
      simp only []
      split
      · exact .inl rfl
      · exact .inr ⟨d, rest, hs, rfl⟩

/-! ## Instructions that compute with values -/

/-- A number that an instruction can put on the integer stack: one of 32 bits if the
others there are, or the depth of a stack. -/
def NewInteger (s : Stacks) (n : Int) : Prop :=
  ((∀ m ∈ s.integer, Int32.InRange m) → Int32.InRange n) ∨
    (∃ on, n = s.depth on) ∨ n = s.input.length

theorem NewInteger.ofInRange {n : Int} (h : Int32.InRange n) : s.NewInteger n := .inl fun _ => h

theorem NewInteger.ofMem {n : Int} (h : n ∈ s.integer) : s.NewInteger n := .inl fun hall => hall n h

/-- What computing with values leaves of the stacks: at most one value of each kind is
new, and nothing else is touched. -/
structure Computed (s t : Stacks) : Prop extends SamePrograms s t where
  integer : s.input.length ≤ 1 → OneNew s.NewInteger s.integer t.integer
  float : s.input.length ≤ 1 → OneNew (fun _ => True) s.float t.float
  boolean : s.input.length ≤ 1 → OneNew (fun _ => True) s.boolean t.boolean

namespace Computed

theorem of {ints : List Int} {floats : List Binary64} {booleans : List Bool}
    (hints : OneNew s.NewInteger s.integer ints)
    (hfloats : OneNew (fun _ => True) s.float floats)
    (hbooleans : OneNew (fun _ => True) s.boolean booleans) :
    s.Computed { s with integer := ints, float := floats, boolean := booleans } :=
  ⟨⟨rfl, rfl, rfl, rfl⟩, fun _ => hints, fun _ => hfloats, fun _ => hbooleans⟩

theorem same : s.Computed s := .of .same .same .same

theorem push {ints : List Int} {item : Item} (hitem : item.IsNumber)
    (hints : ints.Subperm s.integer) : s.Computed ({ s with integer := ints }.push item) := by
  cases item with
  | int n => exact .of (.ofPush (.ofInRange (Int32.wrap_inRange n)) hints) .same .same
  | float x => exact .of (.ofPart hints) (.ofPush trivial (.refl _)) .same
  | bool _ | name _ | list _ | hole => exact hitem.elim

/-- Pushing numbers touches no other stack, however many they are. If there are no two
of them, it is pushing one number or nothing. -/
theorem pushAll {items : List Item} (hitems : ∀ item ∈ items, item.IsNumber)
    (hlength : items.length = s.input.length) : s.Computed (s.pushAll items) := by
  have hprograms := pushAll_samePrograms s hitems
  match items with
  | [] => exact .same
  | [item] => exact .push (hitems item List.mem_cons_self) (.refl _)
  | x :: y :: items =>
      have hmany : ¬ s.input.length ≤ 1 := by
        rw [← hlength, List.length_cons, List.length_cons]
        omega
      exact ⟨hprograms, fun h => absurd h hmany, fun h => absurd h hmany,
        fun h => absurd h hmany⟩

end Computed

end Stacks

/-- Whether an instruction computes with values: it leaves alone the stacks of programs,
and rearranges no stack. -/
def Instruction.computes : Instruction → Bool
  | .move _ _ | .moveAt _ _ | .quote | .branch | .combinatorK | .combinatorS | .combinatorY
  | .doRange | .doTimes | .doCount => false
  | _ => true

namespace Stacks

theorem apply_computed {i : Instruction} (hi : i.computes = true)
    (hin : ∀ item ∈ s.input, item.IsNumber) : s.Computed (s.apply maxPoints i) := by
  cases i with
  | integerOp op =>
      rw [apply]
      split
      · next b a rest hs =>
          have ha : a ∈ s.integer := by rw [hs]; simp
          have hb : b ∈ s.integer := by rw [hs]; simp
          have hrest : rest.Subperm s.integer := rest_subperm_two hs
          exact .of (.ofPush (.inl fun hall => op.apply_inRange (hall a ha) (hall b hb)) hrest)
            .same .same
      · exact .same
  | integerAbs | integerNeg =>
      rw [apply]
      split
      · next a rest hs =>
          have hrest : rest.Subperm s.integer := rest_subperm hs
          exact .of (.ofPush (.ofInRange (Int32.wrap_inRange _)) hrest) .same .same
      · exact .same
  | integerCompare c =>
      rw [apply]
      split
      · next b a rest hs =>
          have hrest : rest.Subperm s.integer := rest_subperm_two hs
          exact .of (.ofPart hrest) .same (.ofPush trivial (.refl _))
      · exact .same
  | integerFromFloat =>
      rw [apply]
      split
      · next x rest hs =>
          have hrest : rest.Subperm s.float := rest_subperm hs
          exact .of (.ofPush (.ofInRange (Int32.wrap_inRange _)) (.refl _)) (.ofPart hrest) .same
      · exact .same
  | integerFromBoolean =>
      rw [apply]
      split
      · next b rest hs =>
          have hrest : rest.Subperm s.boolean := rest_subperm hs
          have hone : Int32.InRange (if b then 1 else 0) := by cases b <;> decide
          exact .of (.ofPush (.ofInRange hone) (.refl _)) .same (.ofPart hrest)
      · exact .same
  | floatOp op =>
      rw [apply]
      split
      · next b a rest hs =>
          have hrest : rest.Subperm s.float := rest_subperm_two hs
          exact .of .same (.ofPush trivial hrest) .same
      · exact .same
  | floatFun f =>
      rw [apply]
      split
      · next x rest hs =>
          have hrest : rest.Subperm s.float := rest_subperm hs
          exact .of .same (.ofPush trivial hrest) .same
      · exact .same
  | floatCompare c =>
      rw [apply]
      split
      · next b a rest hs =>
          have hrest : rest.Subperm s.float := rest_subperm_two hs
          exact .of .same (.ofPart hrest) (.ofPush trivial (.refl _))
      · exact .same
  | floatFromInteger =>
      rw [apply]
      split
      · next a rest hs =>
          have hrest : rest.Subperm s.integer := rest_subperm hs
          exact .of (.ofPart hrest) (.ofPush trivial (.refl _)) .same
      · exact .same
  | floatFromBoolean =>
      rw [apply]
      split
      · next b rest hs =>
          have hrest : rest.Subperm s.boolean := rest_subperm hs
          exact .of .same (.ofPush trivial (.refl _)) (.ofPart hrest)
      · exact .same
  | booleanOp op =>
      rw [apply]
      split
      · next b a rest hs =>
          have hrest : rest.Subperm s.boolean := rest_subperm_two hs
          exact .of .same .same (.ofPush trivial hrest)
      · exact .same
  | booleanNot =>
      rw [apply]
      split
      · next b rest hs =>
          have hrest : rest.Subperm s.boolean := rest_subperm hs
          exact .of .same .same (.ofPush trivial hrest)
      · exact .same
  | booleanFromInteger =>
      rw [apply]
      split
      · next a rest hs =>
          have hrest : rest.Subperm s.integer := rest_subperm hs
          exact .of (.ofPart hrest) .same (.ofPush trivial (.refl _))
      · exact .same
  | booleanFromFloat =>
      rw [apply]
      split
      · next x rest hs =>
          have hrest : rest.Subperm s.float := rest_subperm hs
          exact .of .same (.ofPart hrest) (.ofPush trivial (.refl _))
      · exact .same
  | constant b => exact .of .same .same (.ofPush trivial (.refl _))
  | stackDepth on => exact .of (.ofPush (.inr (.inl ⟨on, rfl⟩)) (.refl _)) .same .same
  | noop => exact .same
  | inputIndex =>
      rw [apply]
      split
      · exact .same
      · exact .same
      · next i ints hs _ =>
          split
          · next item hitem =>
              have hmem := List.mem_reverse.mp (List.mem_of_getElem? hitem)
              exact .push (hin item hmem) (rest_subperm hs)
          · exact .same
  | inputAll =>
      exact .pushAll (fun item h => hin item (List.mem_reverse.mp h)) List.length_reverse
  | inputAllReversed => exact .pushAll hin rfl
  | inputDepth => exact .of (.ofPush (.inr (.inr rfl)) (.refl _)) .same .same
  | inputAt n =>
      rw [apply]
      split
      · next item hitem =>
          exact .push (hin item (List.mem_reverse.mp (List.mem_of_getElem? hitem))) (.refl _)
      · exact .same
  | move _ _ | moveAt _ _ | quote | branch | combinatorK | combinatorS | combinatorY
  | doRange | doTimes | doCount => exact Bool.noConfusion hi

end Stacks

/-! ## Changes of the exec stack -/

/-- What an instruction makes of the exec stack: it leaves part of it, copies an item
of it, or builds a list out of the items on top. -/
inductive ExecChange (maxPoints : Int) : List Item → List Item → Prop
  | part {xs ys : List Item} (h : ys.Subperm xs) : ExecChange maxPoints xs ys
  | copy {x : Item} {xs : List Item} (h : x ∈ xs) : ExecChange maxPoints xs (x :: xs)
  | combine (a b c : Item) (xs : List Item) (h : (Item.list [b, c]).size ≤ maxPoints) :
      ExecChange maxPoints (a :: b :: c :: xs) (a :: c :: .list [b, c] :: xs)
  | again (a : Item) (xs : List Item) :
      ExecChange maxPoints (a :: xs) (a :: .list [.name "exec.y", a] :: xs)
  | range (first last : Int) (body : Item) (xs : List Item) :
      ExecChange maxPoints (body :: xs) (body :: Stacks.rangeItem first last body :: xs)
  | loop (last : Int) {body body' : Item} (xs : List Item)
      (h : body' = body ∨ body' = Stacks.withoutIndex body) :
      ExecChange maxPoints (body :: xs) (Stacks.rangeItem 0 last body' :: xs)

theorem ExecChange.same {xs : List Item} : ExecChange maxPoints xs xs := .part (.refl _)

theorem StackMove.execChange (m : StackMove) (xs : List Item) :
    ExecChange maxPoints xs (m.apply xs) := by
  rcases m.apply_cases xs with hpart | ⟨x, hx, heq⟩
  · exact .part hpart
  · rw [heq]
    exact .copy hx

theorem DepthMove.execChange (m : DepthMove) (depth : Int) (xs : List Item) :
    ExecChange maxPoints xs (m.apply depth xs) := by
  rcases m.apply_cases depth xs with hpart | ⟨x, hx, heq⟩
  · exact .part hpart
  · rw [heq]
    exact .copy hx

/-! ## All instructions -/

namespace Stacks

structure Changed (maxPoints : Int) (s t : Stacks) : Prop where
  integer : s.input.length ≤ 1 → OneNew s.NewInteger s.integer t.integer
  float : s.input.length ≤ 1 → OneNew (fun _ => True) s.float t.float
  boolean : s.input.length ≤ 1 → OneNew (fun _ => True) s.boolean t.boolean
  exec : ExecChange maxPoints s.exec t.exec
  code : OneNew (fun item => item ∈ s.code ∨ item ∈ s.exec) s.code t.code
  name : OneNew (· ∈ s.name) s.name t.name
  input : t.input = s.input

theorem Computed.changed {t : Stacks} (h : s.Computed t) : s.Changed maxPoints t where
  integer := h.integer
  float := h.float
  boolean := h.boolean
  exec := h.exec ▸ .same
  code := h.code ▸ .same
  name := h.name ▸ .same
  input := h.input

namespace Changed

theorem same : s.Changed maxPoints s := Computed.same.changed

theorem ofExec {ints : List Int} {booleans : List Bool} {exec : List Item}
    (hints : OneNew s.NewInteger s.integer ints) (hbooleans : booleans.Subperm s.boolean)
    (hexec : ExecChange maxPoints s.exec exec) :
    s.Changed maxPoints { s with integer := ints, boolean := booleans, exec := exec } :=
  ⟨fun _ => hints, fun _ => .same, fun _ => .ofPart hbooleans, hexec, .same, .same, rfl⟩

/-- One stack is rearranged, after the integer stack may have lost a depth. -/
theorem rearranged {ints : List Int} (hints : ints.Subperm s.integer)
    {move : {α : Type} → List α → List α}
    (hone : ∀ {α : Type} {new : α → Prop} {xs : List α},
      (∀ x ∈ xs, new x) → OneNew new xs (move xs))
    (hexec : ExecChange maxPoints s.exec (move s.exec)) (on : StackName) :
    s.Changed maxPoints ({ s with integer := ints }.rearrange move on) := by
  have hpart : s.Changed maxPoints { s with integer := ints } :=
    .ofExec (.ofPart hints) (.refl _) .same
  cases on with
  | integer =>
      -- the depth came from this very stack, so `move` sees only what is left of it
      have hmoved : OneNew s.NewInteger s.integer (move ints) := by
        have hnew : ∀ n ∈ ints, s.NewInteger n := fun n hn => .ofMem (hints.subset hn)
        rcases hone hnew with h | ⟨n, rest, hn, h, heq⟩
        · exact .ofPart (h.trans hints)
        · exact heq ▸ .ofPush hn (h.trans hints)
      exact { hpart with integer := fun _ => hmoved }
  | float => exact { hpart with float := fun _ => hone fun _ _ => trivial }
  | boolean => exact { hpart with boolean := fun _ => hone fun _ _ => trivial }
  | exec => exact { hpart with exec := hexec }
  | code => exact { hpart with code := hone fun _ h => .inl h }
  | name => exact { hpart with name := hone fun _ h => h }

end Changed

/-- What any instruction leaves of the stacks, if the inputs are numbers. -/
theorem apply_changed (hin : ∀ item ∈ s.input, item.IsNumber) (i : Instruction) :
    s.Changed maxPoints (s.apply maxPoints i) := by
  cases hi : i.computes with
  | true => exact (apply_computed hi hin).changed
  | false =>
      cases i with
      | move m on => exact .rearranged (.refl _) m.oneNew (m.execChange _) on
      | moveAt m on =>
          rcases moveAt_cases s m on with h | ⟨d, rest, hs, h⟩
          · rw [apply, h]
            exact .same
          · rw [apply, h]
            exact .rearranged (rest_subperm hs) (m.oneNew d) (m.execChange d _) on
      | quote =>
          rw [apply]
          split
          · next item exec hs =>
              have hitem : item ∈ s.exec := by rw [hs]; exact List.mem_cons_self
              exact ⟨fun _ => .same, fun _ => .same, fun _ => .same, .part (rest_subperm hs),
                .ofPush (.inr hitem) (.refl _), .same, rfl⟩
          · exact .same
      | branch =>
          rw [apply]
          split
          · next condition booleans ifTrue ifFalse exec hb hs =>
              refine .ofExec .same (rest_subperm hb) (.part ?_)
              exact hs ▸ branch_subperm condition ifTrue ifFalse exec
          · exact .same
      | combinatorK =>
          rw [apply]
          split
          · next a b exec hs =>
              refine .ofExec .same (.refl _) (.part ?_)
              exact hs ▸ skip_subperm a b exec
          · exact .same
      | combinatorS =>
          rw [apply]
          split
          · next a b c exec hs =>
              split
              · next hsize => exact .ofExec .same (.refl _) (hs ▸ .combine a b c exec hsize)
              · exact .same
          · exact .same
      | combinatorY =>
          rw [apply]
          split
          · next a exec hs => exact .ofExec .same (.refl _) (hs ▸ .again a exec)
          · exact .same
      | doRange =>
          simp only [apply, rangeLoop]
          split
          · next stop start ints body exec hints hs =>
              have hstart : start ∈ s.integer := by rw [hints]; simp
              refine .ofExec (.ofPush (.ofMem hstart) (rest_subperm_two hints)) (.refl _) ?_
              rw [hs]
              split
              · exact .same
              · exact .range _ stop body exec
          · exact .same
      | doTimes =>
          simp only [apply, countedLoop]
          split
          · next count ints body exec hints hs =>
              split
              · exact .same
              · refine .ofExec (.ofPart (rest_subperm hints)) (.refl _) ?_
                exact hs ▸ .loop (count - 1) exec (.inr rfl)
          · exact .same
      | doCount =>
          simp only [apply, countedLoop]
          split
          · next count ints body exec hints hs =>
              split
              · exact .same
              · refine .ofExec (.ofPart (rest_subperm hints)) (.refl _) ?_
                exact hs ▸ .loop (count - 1) exec (.inl rfl)
          · exact .same
      | _ => exact Bool.noConfusion hi

/-! ## The inputs during a run -/

theorem next_input (maxPoints : Int) (hin : ∀ item ∈ s.input, item.IsNumber) :
    (s.next maxPoints).input = s.input := by
  apply next_invariant (p := fun t => t.input = s.input)
  case happly =>
    intro n i exec _ _
    exact (apply_changed (s := { s with exec := exec }) hin i).input
  all_goals intros; rfl

theorem after_input (maxPoints : Int) (hin : ∀ item ∈ s.input, item.IsNumber) (n : Nat) :
    (s.after maxPoints n).input = s.input := by
  apply after_invariant (p := fun t => t.input = s.input) rfl
  intro t ht
  rw [next_input maxPoints (by rw [ht]; exact hin), ht]

/-- There is one input at most, and it is a number. -/
structure OneInput (s : Stacks) : Prop where
  number : ∀ item ∈ s.input, item.IsNumber
  single : s.input.length ≤ 1

theorem OneInput.after (h : s.OneInput) (n : Nat) : (s.after maxPoints n).OneInput := by
  have hinput := after_input maxPoints h.number n
  constructor
  · rw [hinput]
    exact h.number
  · rw [hinput]
    exact h.single

end Stacks

end PushFitness
