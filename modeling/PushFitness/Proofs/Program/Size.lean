import Mathlib.Data.List.Perm.Subperm
import PushFitness.Program.Item

/-!
# Points and leaves of several items

What is pending on a machine is a row of items, and the two things asked of it are
how many points it has and which leaves. Both are sums over the row: they do not
depend on the order of the items, part of a row has no more of them than the whole,
and a list in the row counts one point more than its own items.
-/

namespace PushFitness.Item

/-! ## Points -/

theorem sizes_nil : sizes [] = 0 := by rw [sizes]

theorem sizes_cons (item : Item) (items : List Item) :
    sizes (item :: items) = item.size + sizes items := by rw [sizes]

theorem sizes_single (item : Item) : sizes [item] = item.size := by
  rw [sizes_cons, sizes_nil, Nat.add_zero]

theorem size_list (items : List Item) : (list items).size = 1 + sizes items := by rw [size]

theorem sizes_append (xs ys : List Item) : sizes (xs ++ ys) = sizes xs + sizes ys := by
  induction xs with
  | nil => rw [List.nil_append, sizes_nil, Nat.zero_add]
  | cons x xs ih => rw [List.cons_append, sizes_cons, sizes_cons, ih, Nat.add_assoc]

theorem size_pos (item : Item) : 1 ≤ item.size := by
  cases item with
  | list items => rw [size_list]; omega
  | int _ | float _ | bool _ | name _ | hole => exact Nat.le_of_eq (by rw [size])

theorem size_of_ne_list {item : Item} (h : ∀ items, item ≠ .list items) : item.size = 1 := by
  cases item with
  | list items => exact absurd rfl (h items)
  | int _ | float _ | bool _ | name _ | hole => rw [size]

theorem size_le_sizes {item : Item} {items : List Item} (h : item ∈ items) :
    item.size ≤ sizes items := by
  obtain ⟨before, behind, rfl⟩ := List.append_of_mem h
  rw [sizes_append, sizes_cons]
  omega

theorem sizes_perm {xs ys : List Item} (h : xs.Perm ys) : sizes xs = sizes ys := by
  induction h with
  | nil => rfl
  | cons x _ ih => rw [sizes_cons, sizes_cons, ih]
  | swap x y _ => simp only [sizes_cons]; omega
  | trans _ _ ih₁ ih₂ => exact ih₁.trans ih₂

theorem sizes_sublist {xs ys : List Item} (h : xs.Sublist ys) : sizes xs ≤ sizes ys := by
  induction h with
  | slnil => exact Nat.le_refl _
  | cons y _ ih => rw [sizes_cons]; omega
  | cons_cons x _ ih => rw [sizes_cons, sizes_cons]; omega

theorem sizes_subperm {xs ys : List Item} (h : xs.Subperm ys) : sizes xs ≤ sizes ys := by
  obtain ⟨zs, hperm, hsub⟩ := h
  rw [← sizes_perm hperm]
  exact sizes_sublist hsub

/-- A row of items none of which is large is not large either. -/
theorem sizes_le_mul {items : List Item} {most : Nat} (h : ∀ item ∈ items, item.size ≤ most) :
    sizes items ≤ items.length * most := by
  induction items with
  | nil => rw [sizes_nil]; omega
  | cons item items ih =>
      have hhead := h item List.mem_cons_self
      have htail := ih fun x hx => h x (List.mem_cons_of_mem _ hx)
      rw [sizes_cons, List.length_cons, Nat.add_mul]
      omega

/-! ## Leaves -/

theorem leavesOf_nil : leavesOf [] = [] := by rw [leavesOf]

theorem leavesOf_cons (item : Item) (items : List Item) :
    leavesOf (item :: items) = item.leaves ++ leavesOf items := by rw [leavesOf]

theorem leavesOf_single (item : Item) : leavesOf [item] = item.leaves := by
  rw [leavesOf_cons, leavesOf_nil, List.append_nil]

theorem leaves_list (items : List Item) : (list items).leaves = leavesOf items := by rw [leaves]

theorem mem_leavesOf {leaf : Item} {items : List Item} :
    leaf ∈ leavesOf items ↔ ∃ item ∈ items, leaf ∈ item.leaves := by
  induction items with
  | nil => simp [leavesOf_nil]
  | cons item items ih => simp [leavesOf_cons, ih]

/-- A property of all leaves of a row, item by item. -/
theorem forall_leavesOf {p : Item → Prop} {items : List Item} :
    (∀ leaf ∈ leavesOf items, p leaf) ↔ ∀ item ∈ items, ∀ leaf ∈ item.leaves, p leaf := by
  constructor
  · intro h item hitem leaf hleaf
    exact h leaf (mem_leavesOf.mpr ⟨item, hitem, hleaf⟩)
  · intro h leaf hleaf
    obtain ⟨item, hitem, hmem⟩ := mem_leavesOf.mp hleaf
    exact h item hitem leaf hmem

/-- A property of all leaves of a list, item by item. -/
theorem forall_leaves_list {p : Item → Prop} {items : List Item} :
    (∀ leaf ∈ (list items).leaves, p leaf) ↔ ∀ item ∈ items, ∀ leaf ∈ item.leaves, p leaf := by
  rw [leaves_list, forall_leavesOf]

theorem leaves_name (n : String) : (name n).leaves = [name n] := by
  rw [leaves]
  intro items h
  exact Item.noConfusion h

theorem leaves_of_ne_list {item : Item} (h : ∀ items, item ≠ .list items) :
    item.leaves = [item] := by
  rw [leaves]
  exact h

theorem leavesOf_subset {xs ys : List Item} (h : xs ⊆ ys) : leavesOf xs ⊆ leavesOf ys := by
  intro leaf hleaf
  obtain ⟨item, hitem, hmem⟩ := mem_leavesOf.mp hleaf
  exact mem_leavesOf.mpr ⟨item, h hitem, hmem⟩

theorem leavesOf_append (xs ys : List Item) :
    leavesOf (xs ++ ys) = leavesOf xs ++ leavesOf ys := by
  induction xs with
  | nil => rw [leavesOf_nil, List.nil_append, List.nil_append]
  | cons x xs ih => rw [List.cons_append, leavesOf_cons, leavesOf_cons, ih, List.append_assoc]

theorem leavesOf_singleton (items : List Item) : leavesOf [.list items] = leavesOf items := by
  rw [leavesOf_single, leaves_list]

end PushFitness.Item
