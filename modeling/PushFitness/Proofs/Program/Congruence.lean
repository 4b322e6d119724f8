import Mathlib.Data.Int.ModEq
import Mathlib.Data.List.Forall2
import PushFitness.Proofs.Int32
import PushFitness.Proofs.Program.Size

/-!
# Programs that differ in nothing the machine can see

A machine reduces every integer to 32 bits before it computes with it, and all it ever asks of
a name is which instruction it is. Two items are congruent if they have the same shape and
their leaves differ at most in this: integers may differ by multiples of `2 ^ 32`, and names may
differ if neither is an instruction.

To show that two congruent programs do the same, it is easier to compare each of them with a
third one than with the other. `reduced` puts the 32-bit integer for every integer and one
fixed name for all that are unknown, and items are congruent if and only if they reduce to the
same item (`reduced_eq_iff`). What remains is an equation about one item at a time.
-/

namespace PushFitness

/-! ## Names -/

namespace Instruction

/-- One name for all that are no instructions; the others stay. -/
def canonicalName (name : String) : String :=
  match ofName? name with
  | .ok none => ""
  | _ => name

theorem canonicalName_of_unknown {name : String} (h : ofName? name = .ok none) :
    canonicalName name = "" := by
  rw [canonicalName, h]

theorem canonicalName_of_known {name : String} (h : ofName? name ≠ .ok none) :
    canonicalName name = name := by
  rw [canonicalName]
  split
  · next hunknown => exact absurd hunknown h
  · rfl

theorem ofName?_empty : ofName? "" = .ok none := by rfl

/-- The canonical name is looked up as the name itself. -/
theorem ofName?_canonicalName (name : String) : ofName? (canonicalName name) = ofName? name := by
  by_cases h : ofName? name = .ok none
  · rw [canonicalName_of_unknown h, h, ofName?_empty]
  · rw [canonicalName_of_known h]

@[simp]
theorem canonicalName_canonicalName (name : String) :
    canonicalName (canonicalName name) = canonicalName name := by
  by_cases h : ofName? name = .ok none
  · rw [canonicalName_of_unknown h, canonicalName_of_unknown ofName?_empty]
  · rw [canonicalName_of_known h, canonicalName_of_known h]

theorem canonicalName_eq_iff {m n : String} : canonicalName m = canonicalName n ↔
    m = n ∨ ofName? m = .ok none ∧ ofName? n = .ok none := by
  constructor
  · intro h
    have hlookup : ofName? m = ofName? n := by
      rw [← ofName?_canonicalName m, h, ofName?_canonicalName]
    by_cases hn : ofName? n = .ok none
    · exact .inr ⟨hlookup.trans hn, hn⟩
    · rw [canonicalName_of_known hn, canonicalName_of_known (hlookup ▸ hn)] at h
      exact .inl h
  · rintro (rfl | ⟨hm, hn⟩)
    · rfl
    · rw [canonicalName_of_unknown hm, canonicalName_of_unknown hn]

end Instruction

/-! ## Items -/

namespace Item

/-- Items of the same shape whose leaves are equal, integers that differ by a multiple of
`2 ^ 32`, or names that are no instructions. -/
inductive Congruent : Item → Item → Prop
  | same (item : Item) : Congruent item item
  | int {m n : Int} (h : m ≡ n [ZMOD 2 ^ 32]) : Congruent (.int m) (.int n)
  | name {m n : String} (hm : Instruction.ofName? m = .ok none)
      (hn : Instruction.ofName? n = .ok none) : Congruent (.name m) (.name n)
  | list {xs ys : List Item} (h : List.Forall₂ Congruent xs ys) :
      Congruent (.list xs) (.list ys)

mutual

/-- The item that stands for all that are congruent to it. -/
def reduced : Item → Item
  | list items => list (reducedAll items)
  | int n => int (Int32.wrap n)
  | name s => name (Instruction.canonicalName s)
  | float x => float x
  | bool b => bool b
  | hole => hole

def reducedAll : List Item → List Item
  | [] => []
  | item :: items => item.reduced :: reducedAll items

end

theorem reducedAll_eq_map (items : List Item) : reducedAll items = items.map reduced := by
  induction items with
  | nil => rw [reducedAll, List.map_nil]
  | cons item items ih => rw [reducedAll, ih, List.map_cons]

@[simp]
theorem reduced_list (items : List Item) : (list items).reduced = list (items.map reduced) := by
  rw [reduced, reducedAll_eq_map]

mutual

theorem reduced_eq_iff (x y : Item) : x.reduced = y.reduced ↔ Congruent x y := by
  cases x with
  | list xs =>
      cases y with
      | list ys =>
          rw [reduced, reduced, list.injEq, reducedAll_eq_iff xs ys]
          constructor
          · exact .list
          · rintro (_ | _ | _ | h)
            · exact (reducedAll_eq_iff xs xs).mp rfl
            · exact h
      | int _ | float _ | bool _ | name _ | hole =>
          rw [reduced, reduced]
          exact iff_of_false nofun nofun
  | int m =>
      cases y with
      | int n =>
          rw [reduced, reduced, int.injEq, Int32.wrap_eq_wrap_iff]
          constructor
          · exact .int
          · rintro (_ | h)
            · exact .refl m
            · exact h
      | list _ | float _ | bool _ | name _ | hole =>
          rw [reduced, reduced]
          exact iff_of_false nofun nofun
  | name m =>
      cases y with
      | name n =>
          rw [reduced, reduced, name.injEq, Instruction.canonicalName_eq_iff]
          constructor
          · rintro (rfl | ⟨hm, hn⟩)
            · exact .same _
            · exact .name hm hn
          · rintro (_ | _ | ⟨hm, hn⟩)
            · exact .inl rfl
            · exact .inr ⟨hm, hn⟩
      | list _ | int _ | float _ | bool _ | hole =>
          rw [reduced, reduced]
          exact iff_of_false nofun nofun
  | float _ | bool _ | hole =>
      constructor
      · cases y <;> simp only [reduced] <;> intro h <;> cases h
        all_goals exact .same _
      · rintro ⟨⟩
        rfl

theorem reducedAll_eq_iff (xs ys : List Item) :
    reducedAll xs = reducedAll ys ↔ List.Forall₂ Congruent xs ys := by
  match xs, ys with
  | [], [] => exact iff_of_true rfl .nil
  | [], _ :: _ | _ :: _, [] =>
      rw [reducedAll, reducedAll]
      exact iff_of_false nofun nofun
  | x :: xs, y :: ys =>
      rw [reducedAll, reducedAll, List.cons.injEq, reduced_eq_iff x y, reducedAll_eq_iff xs ys,
        List.forall₂_cons]

end

theorem map_reduced_eq_iff {xs ys : List Item} :
    xs.map reduced = ys.map reduced ↔ List.Forall₂ Congruent xs ys := by
  rw [← reducedAll_eq_map, ← reducedAll_eq_map, reducedAll_eq_iff]

mutual

@[simp]
theorem reduced_reduced (item : Item) : item.reduced.reduced = item.reduced := by
  cases item with
  | list items => rw [reduced, reduced, reducedAll_reducedAll items]
  | int n => rw [reduced, reduced, Int32.wrap_wrap]
  | name s => rw [reduced, reduced, Instruction.canonicalName_canonicalName]
  | float _ | bool _ | hole => rw [reduced, reduced]

theorem reducedAll_reducedAll (items : List Item) :
    reducedAll (reducedAll items) = reducedAll items := by
  match items with
  | [] => rw [reducedAll, reducedAll]
  | item :: items =>
      rw [reducedAll, reducedAll, reduced_reduced item, reducedAll_reducedAll items]

end

@[simp]
theorem map_reduced_map_reduced (items : List Item) :
    (items.map reduced).map reduced = items.map reduced := by
  rw [← reducedAll_eq_map, ← reducedAll_eq_map, reducedAll_reducedAll]

mutual

/-- Reducing an item keeps its points. -/
@[simp]
theorem size_reduced (item : Item) : item.reduced.size = item.size := by
  cases item with
  | list items => rw [reduced, size_list, size_list, sizes_reducedAll items]
  | int _ | name _ => rw [reduced, size, size]
  | float _ | bool _ | hole => rw [reduced]

theorem sizes_reducedAll (items : List Item) : sizes (reducedAll items) = sizes items := by
  match items with
  | [] => rw [reducedAll]
  | item :: items =>
      rw [reducedAll, sizes_cons, sizes_cons, size_reduced item, sizes_reducedAll items]

end

end Item

end PushFitness
