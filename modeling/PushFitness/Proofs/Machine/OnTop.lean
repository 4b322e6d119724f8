import Mathlib.Algebra.Group.Pi.Basic
import PushFitness.Proofs.Machine.Untyped

/-!
# What a step leaves below

A step that works on top of the stacks takes some items from each of them and puts others in their
place, so what it leaves is known when it is known how many it takes (`OnTop`). Numbers of items
are counted for each stack, and counts add up. A depth and an item to move are two integers if
the item is one, and this needs no case of its own.

Here are the ways in which such a step is put together: replacing the items on top of one stack,
taking from one and adding to another, working on two.
-/

namespace PushFitness

namespace Slot

/-- So many items on one stack, and none on the others. -/
def count (slot : Slot) (n : Nat) : Slot → Nat := fun other => if other = slot then n else 0

theorem count_self (slot : Slot) (n : Nat) : slot.count n slot = n := if_pos rfl

theorem count_of_ne {slot other : Slot} (h : other ≠ slot) (n : Nat) : slot.count n other = 0 :=
  if_neg h

theorem count_zero (slot : Slot) : slot.count 0 = 0 := by
  funext other
  exact ite_self 0

theorem count_add (slot : Slot) (m n : Nat) : slot.count m + slot.count n = slot.count (m + n) := by
  funext other
  rw [Pi.add_apply, count, count, count]
  split
  · rfl
  · rfl

end Slot

namespace Untyped

variable {u v : Untyped} {takes : Slot → Nat} {outputs : List Slot} {ready : Prop}

/-- Without the arguments nothing changes. With them so many items are taken from each stack, and
something is put on the listed ones. -/
structure OnTop (ready : Prop) (takes : Slot → Nat) (outputs : List Slot) (u v : Untyped) :
    Prop where
  idle : ¬ ready → v = u
  done : ready → ∀ slot, ∃ results, v slot = results ++ (u slot).drop (takes slot) ∧
    (slot ∉ outputs → results = [])

/-- So many items are there on each stack. -/
def Enough (needs : Slot → Nat) (u : Untyped) : Prop := ∀ slot, needs slot ≤ (u slot).length

theorem OnTop.of_not (h : ¬ ready) : OnTop ready takes outputs u u :=
  ⟨fun _ => rfl, fun hready => absurd hready h⟩

theorem OnTop.of_results (hready : ready) (results : Slot → List Item)
    (hv : ∀ slot, v slot = results slot ++ (u slot).drop (takes slot))
    (hout : ∀ slot, slot ∉ outputs → results slot = []) : OnTop ready takes outputs u v :=
  ⟨fun h => absurd hready h, fun _ slot => ⟨results slot, hv slot, hout slot⟩⟩

theorem OnTop.congr {ready' : Prop} (h : OnTop ready takes outputs u v)
    (hready : ready ↔ ready') : OnTop ready' takes outputs u v :=
  ⟨fun hnot => h.idle fun hyes => hnot (hready.mp hyes), fun hyes => h.done (hready.mpr hyes)⟩

theorem OnTop.mono {outputs' : List Slot} (h : OnTop ready takes outputs u v)
    (hout : ∀ slot ∈ outputs, slot ∈ outputs') : OnTop ready takes outputs' u v where
  idle := h.idle
  done hready slot := by
    obtain ⟨results, hresults, hnone⟩ := h.done hready slot
    exact ⟨results, hresults, fun hslot => hnone fun hmem => hslot (hout slot hmem)⟩

/-! ## Enough items -/

theorem enough_zero : Enough 0 u := fun _ => Nat.zero_le _

theorem enough_count {slot : Slot} {n : Nat} :
    Enough (slot.count n) u ↔ n ≤ (u slot).length := by
  constructor
  · intro h
    have hslot := h slot
    rwa [Slot.count_self] at hslot
  · intro h other
    by_cases hother : other = slot
    · rw [hother, Slot.count_self]
      exact h
    · rw [Slot.count_of_ne hother]
      exact Nat.zero_le _

/-- On two different stacks the counts are two conditions. -/
theorem enough_add {p q : Slot} (hpq : p ≠ q) {m n : Nat} :
    Enough (p.count m + q.count n) u ↔ m ≤ (u p).length ∧ n ≤ (u q).length := by
  constructor
  · intro h
    have hp := h p
    have hq := h q
    rw [Pi.add_apply, Slot.count_self, Slot.count_of_ne hpq] at hp
    rw [Pi.add_apply, Slot.count_self, Slot.count_of_ne hpq.symm] at hq
    omega
  · rintro ⟨hp, hq⟩ slot
    rw [Pi.add_apply, Slot.count, Slot.count]
    split
    · next h =>
        rw [if_neg (h ▸ hpq), h]
        exact hp
    · split
      · next h =>
          rw [h, Nat.zero_add]
          exact hq
      · exact Nat.zero_le _

/-- The items of a stack that holds two. -/
theorem exists_of_two_le {items : List Item} (h : 2 ≤ items.length) :
    ∃ a b rest, items = a :: b :: rest := by
  match items, h with
  | a :: b :: rest, _ => exact ⟨a, b, rest, rfl⟩

theorem exists_of_three_le {items : List Item} (h : 3 ≤ items.length) :
    ∃ a b c rest, items = a :: b :: c :: rest := by
  match items, h with
  | a :: b :: c :: rest, _ => exact ⟨a, b, c, rest, rfl⟩

/-- A depth and an item to move: when the depth has been taken there is still an item. -/
theorem enough_depth {slot : Slot} : Enough (Slot.integer.count 1 + slot.count 1) u ↔
    u .integer ≠ [] ∧ (u slot).drop (Slot.integer.count 1 slot) ≠ [] := by
  by_cases h : slot = .integer
  · rw [h, Slot.count_add, enough_count, Slot.count_self]
    rcases u .integer with _ | ⟨d, _ | ⟨x, rest⟩⟩ <;> simp
  · rw [enough_add (Ne.symm h), Slot.count_of_ne h, List.drop_zero, ← List.length_pos_iff,
      ← List.length_pos_iff]
    rfl

theorem put_self (u : Untyped) (slot : Slot) : u.put slot (u slot) = u := by
  funext other
  rw [put]
  split
  · next h => rw [h]
  · rfl

/-- Taking items off one stack, seen from all of them. -/
theorem put_drop (src : Slot) (n : Nat) (slot : Slot) :
    u.put src ((u src).drop n) slot = (u slot).drop (src.count n slot) := by
  by_cases hsrc : slot = src
  · rw [hsrc, Slot.count_self, put, if_pos rfl]
  · rw [Slot.count_of_ne hsrc, put, if_neg hsrc, List.drop_zero]

/-! ## Changes on top -/

theorem onTop_put {slot : Slot} {n : Nat} (hready : ready) (results : List Item)
    (hout : slot ∉ outputs → results = []) :
    OnTop ready (slot.count n) outputs u (u.put slot (results ++ (u slot).drop n)) := by
  refine .of_results hready (fun other => if other = slot then results else []) (fun other => ?_)
    (fun other hother => ?_)
  · by_cases hother : other = slot
    · rw [hother, put, if_pos rfl, if_pos rfl, Slot.count_self]
    · rw [put, if_neg hother, if_neg hother, Slot.count_of_ne hother]
      rfl
  · split
    · next h => exact hout (h ▸ hother)
    · rfl

/-- Items are taken off one stack and one is put on a stack, which may be the same. -/
theorem onTop_put_add {src out : Slot} {n : Nat} (hready : ready) (x : Item) :
    OnTop ready (src.count n) [out] u ((u.put src ((u src).drop n)).add out x) := by
  refine .of_results hready (fun slot => if slot = out then [x] else []) (fun slot => ?_)
    (fun slot h => if_neg (by simpa using h))
  by_cases hout : slot = out
  · rw [if_pos hout, ← put_drop, add, put, if_pos hout, hout]
    rfl
  · rw [if_neg hout, ← put_drop, add, put, if_neg hout]
    rfl

/-- Two stacks are worked on. -/
theorem onTop_put_put {p q : Slot} (hpq : p ≠ q) {m n : Nat} (hready : ready)
    (ps qs : List Item) (hp : p ∉ outputs → ps = []) (hq : q ∈ outputs) :
    OnTop ready (p.count m + q.count n) outputs u
      ((u.put p (ps ++ (u p).drop m)).put q (qs ++ (u q).drop n)) := by
  refine .of_results hready (fun slot => if slot = q then qs else if slot = p then ps else [])
    (fun slot => ?_) (fun slot hslot => ?_)
  · rw [Pi.add_apply, put]
    by_cases hslotq : slot = q
    · rw [if_pos hslotq, if_pos hslotq, hslotq, Slot.count_self, Slot.count_of_ne hpq.symm,
        Nat.zero_add]
    · rw [if_neg hslotq, if_neg hslotq, Slot.count_of_ne hslotq, Nat.add_zero, put]
      by_cases hslotp : slot = p
      · rw [if_pos hslotp, if_pos hslotp, hslotp, Slot.count_self]
      · rw [if_neg hslotp, if_neg hslotp, Slot.count_of_ne hslotp]
        rfl
  · rw [if_neg fun h : slot = q => hslot (h ▸ hq)]
    split
    · next h => exact hp (h ▸ hslot)
    · rfl

/-! ## Known items on top -/

section
variable {p q slot out : Slot} {rest rest' : List Item}

theorem of_append {taken : List Item} (hu : u slot = taken ++ rest) :
    taken.length ≤ (u slot).length ∧ rest = (u slot).drop taken.length := by
  rw [hu, List.drop_left, List.length_append]
  exact ⟨Nat.le_add_right _ _, rfl⟩

/-- The items on top are replaced by others. -/
theorem onTop_replace (taken results : List Item) (hu : u slot = taken ++ rest)
    (hout : slot ∈ outputs) :
    OnTop (Enough (slot.count taken.length) u) (slot.count taken.length) outputs u
      (u.put slot (results ++ rest)) := by
  obtain ⟨henough, hrest⟩ := of_append hu
  rw [hrest]
  exact onTop_put (enough_count.mpr henough) results fun h => absurd hout h

/-- The items on top are taken, and one is added. -/
theorem onTop_replace_add (taken : List Item) (hu : u slot = taken ++ rest) (x : Item) :
    OnTop (Enough (slot.count taken.length) u) (slot.count taken.length) [out] u
      ((u.put slot rest).add out x) := by
  obtain ⟨henough, hrest⟩ := of_append hu
  rw [hrest]
  exact onTop_put_add (enough_count.mpr henough) x

/-- The items on top of two stacks are replaced by others. -/
theorem onTop_replace_replace (hpq : p ≠ q) (taken results taken' results' : List Item)
    (hp : u p = taken ++ rest) (hq : u q = taken' ++ rest')
    (hout : p ∉ outputs → results = []) (hout' : q ∈ outputs) :
    OnTop (Enough (p.count taken.length + q.count taken'.length) u)
      (p.count taken.length + q.count taken'.length) outputs u
      ((u.put p (results ++ rest)).put q (results' ++ rest')) := by
  obtain ⟨henough, hrest⟩ := of_append hp
  obtain ⟨henough', hrest'⟩ := of_append hq
  rw [hrest, hrest']
  exact onTop_put_put hpq ((enough_add hpq).mpr ⟨henough, henough'⟩) results results' hout hout'

end

end Untyped

end PushFitness
