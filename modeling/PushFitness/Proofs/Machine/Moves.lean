import Mathlib.Data.List.Perm.Subperm
import PushFitness.Machine.Effect

/-!
# What the stack moves do to the items of a stack

A move never invents an item. It puts a second copy of one item on top, or what it
leaves is part of what it found, in some order; and most moves leave all of it.
Which of the three it is depends on the move alone, so a bound or an invariant of
items that holds on a stack goes through every move by the same two lemmas.

No move looks at the items either, so it commutes with any change of what the
items are (`apply_map`).
-/

namespace PushFitness

variable {α β : Type}

/-! ## Moves of the two tables -/

namespace Stack

theorem swap_perm (xs : List α) : (swap xs).Perm xs := by
  match xs with
  | [] => exact .refl _
  | [_] => exact .refl _
  | x :: y :: _ => exact .swap x y _

theorem rot_perm (xs : List α) : (rot xs).Perm xs := by
  match xs with
  | [] => exact .refl _
  | [_] => exact .refl _
  | [_, _] => exact .refl _
  | x :: y :: z :: _ => exact (List.Perm.swap x z _).trans ((List.Perm.swap y z _).cons x)

theorem clamp_le (depth : Int) (last : Nat) : clamp depth last ≤ last := Nat.min_le_right _ _

theorem yank_perm (depth : Int) (xs : List α) : (yank depth xs).Perm xs := by
  simp only [yank]
  split
  · next x hx =>
      obtain ⟨h, rfl⟩ := List.getElem?_eq_some_iff.mp hx
      exact List.getElem_cons_eraseIdx_perm h
  · exact .refl _

theorem shove_perm (depth : Int) (xs : List α) : (shove depth xs).Perm xs := by
  match xs with
  | [] => exact .refl _
  | x :: xs => exact List.perm_insertIdx x xs (clamp_le depth xs.length)

end Stack

/-- Whether a move keeps every item and adds none. -/
def StackMove.permutes : StackMove → Bool
  | swap | rot => true
  | pop | dup | flush => false

/-- Whether a move can put a second copy of an item on the stack. -/
def StackMove.copies : StackMove → Bool
  | dup => true
  | pop | swap | rot | flush => false

def DepthMove.copies : DepthMove → Bool
  | yankDup => true
  | yank | shove => false

theorem StackMove.apply_perm {m : StackMove} (h : m.permutes = true) (xs : List α) :
    (m.apply xs).Perm xs := by
  cases m with
  | swap => exact Stack.swap_perm xs
  | rot => exact Stack.rot_perm xs
  | pop | dup | flush => exact absurd h (by decide)

theorem StackMove.apply_subperm {m : StackMove} (h : m.copies = false) (xs : List α) :
    (m.apply xs).Subperm xs := by
  cases m with
  | pop => exact (List.tail_sublist xs).subperm
  | dup => exact absurd h (by decide)
  | swap => exact (Stack.swap_perm xs).subperm
  | rot => exact (Stack.rot_perm xs).subperm
  | flush => exact List.nil_subperm

theorem DepthMove.apply_perm {m : DepthMove} (h : m.copies = false) (depth : Int)
    (xs : List α) : (m.apply depth xs).Perm xs := by
  cases m with
  | yank => exact Stack.yank_perm depth xs
  | yankDup => exact absurd h (by decide)
  | shove => exact Stack.shove_perm depth xs

/-- What a move of the first table leaves: part of the stack, or one item more. -/
theorem StackMove.apply_cases (m : StackMove) (xs : List α) :
    (m.apply xs).Subperm xs ∨ ∃ x ∈ xs, m.apply xs = x :: xs := by
  cases hm : m.copies with
  | false => exact .inl (StackMove.apply_subperm hm xs)
  | true =>
      cases m with
      | dup =>
          match xs with
          | [] => exact .inl (.refl _)
          | x :: xs => exact .inr ⟨x, List.mem_cons_self, rfl⟩
      | pop | swap | rot | flush => exact absurd hm (by decide)

theorem DepthMove.apply_cases (m : DepthMove) (depth : Int) (xs : List α) :
    (m.apply depth xs).Subperm xs ∨ ∃ x ∈ xs, m.apply depth xs = x :: xs := by
  cases m with
  | yank => exact .inl (Stack.yank_perm depth xs).subperm
  | shove => exact .inl (Stack.shove_perm depth xs).subperm
  | yankDup =>
      simp only [DepthMove.apply, Stack.yankDup]
      split
      · next x hx => exact .inr ⟨x, List.mem_of_getElem? hx, rfl⟩
      · exact .inl (.refl _)

/-! ## Moves that undo each other -/

namespace Stack

theorem yank_of_ne_nil (depth : Int) {xs : List α} (h : xs ≠ []) :
    ∃ x, xs[clamp depth (xs.length - 1)]? = some x ∧
      yank depth xs = x :: xs.eraseIdx (clamp depth (xs.length - 1)) := by
  have hpos : 0 < xs.length := List.length_pos_iff.mpr h
  have hlt : clamp depth (xs.length - 1) < xs.length :=
    Nat.lt_of_le_of_lt (clamp_le depth _) (Nat.sub_lt hpos Nat.one_pos)
  refine ⟨xs[clamp depth (xs.length - 1)], List.getElem?_eq_getElem hlt, ?_⟩
  simp only [yank, List.getElem?_eq_getElem hlt]

/-- `yank` cuts the depth to the whole stack and `shove` to the stack without the item that it
moves, which by then is one shorter. -/
theorem shove_yank (depth : Int) (xs : List α) : shove depth (yank depth xs) = xs := by
  by_cases h : xs = []
  · rw [h]
    rfl
  · obtain ⟨x, hx, hyank⟩ := yank_of_ne_nil depth h
    obtain ⟨hlt, rfl⟩ := List.getElem?_eq_some_iff.mp hx
    rw [hyank, shove, List.length_eraseIdx_of_lt hlt, List.insertIdx_eraseIdx_getElem]

theorem yank_shove (depth : Int) (xs : List α) : yank depth (shove depth xs) = xs := by
  match xs with
  | [] => rfl
  | x :: xs =>
      have hle := clamp_le depth xs.length
      have hlength : (xs.insertIdx (clamp depth xs.length) x).length - 1 = xs.length := by
        rw [List.length_insertIdx_of_le_length hle, Nat.add_sub_cancel]
      simp only [shove, yank, hlength, List.getElem?_insertIdx_self, if_pos hle,
        List.eraseIdx_insertIdx_self]

/-- The copy is of the item that would have been moved. -/
theorem yankDup_of_yank {depth : Int} {xs : List α} {x : α} (h : (yank depth xs).head? = some x) :
    yankDup depth xs = x :: xs := by
  by_cases hxs : xs = []
  · rw [hxs] at h
    cases h
  · obtain ⟨y, hy, hyank⟩ := yank_of_ne_nil depth hxs
    rw [hyank, List.head?_cons] at h
    obtain rfl := Option.some.inj h
    simp only [yankDup, hy]

/-- The second list is the first with one item in another place. -/
def OneMoved (xs ys : List α) : Prop :=
  ∃ (x : α) (i j : Nat), xs[i]? = some x ∧ ys[j]? = some x ∧ ys.eraseIdx j = xs.eraseIdx i

theorem yank_oneMoved (depth : Int) {xs : List α} (h : xs ≠ []) : OneMoved xs (yank depth xs) := by
  obtain ⟨x, hx, hyank⟩ := yank_of_ne_nil depth h
  rw [hyank]
  exact ⟨x, _, 0, hx, rfl, rfl⟩

theorem shove_oneMoved (depth : Int) {xs : List α} (h : xs ≠ []) :
    OneMoved xs (shove depth xs) := by
  match xs, h with
  | x :: xs, _ =>
      refine ⟨x, 0, clamp depth xs.length, rfl, ?_, List.eraseIdx_insertIdx_self x⟩
      rw [shove, List.getElem?_insertIdx_self, if_pos (clamp_le depth xs.length)]

theorem rot_eq_yank {xs : List α} (h : 3 ≤ xs.length) : rot xs = yank 2 xs := by
  match xs, h with
  | x :: y :: z :: xs, _ =>
      have hdepth : clamp 2 ((x :: y :: z :: xs).length - 1) = 2 := by simp [clamp]
      rw [yank, hdepth]
      rfl

theorem swap_eq_yank {xs : List α} (h : 2 ≤ xs.length) : swap xs = yank 1 xs := by
  match xs, h with
  | x :: y :: xs, _ =>
      have hdepth : clamp 1 ((x :: y :: xs).length - 1) = 1 := by simp [clamp]
      rw [yank, hdepth]
      rfl

theorem swap_eq_shove {xs : List α} (h : 2 ≤ xs.length) : swap xs = shove 1 xs := by
  match xs, h with
  | x :: y :: xs, _ =>
      have hdepth : clamp 1 (y :: xs).length = 1 := by simp [clamp]
      rw [shove, hdepth]
      rfl

end Stack

/-! ## Stacks that are too short for a move -/

/-- How many items a move looks at, from the top. -/
def StackMove.arity : StackMove → Nat
  | flush => 0
  | pop | dup => 1
  | swap => 2
  | rot => 3

theorem StackMove.apply_of_short {m : StackMove} {xs : List α}
    (h : xs.length < m.arity) : m.apply xs = xs := by
  cases m with
  | flush => exact absurd h (Nat.not_lt_zero _)
  | pop | dup =>
      match xs, h with
      | [], _ => rfl
  | swap =>
      match xs, h with
      | [], _ | [_], _ => rfl
  | rot =>
      match xs, h with
      | [], _ | [_], _ | [_, _], _ => rfl

theorem StackMove.apply_of_long {m : StackMove} {xs : List α} (hm : m ≠ flush)
    (h : m.arity ≤ xs.length) :
    ∃ results, m.apply xs = results ++ xs.drop m.arity ∧ (m = pop → results = []) := by
  cases m with
  | flush => exact absurd rfl hm
  | pop => exact ⟨[], List.drop_one.symm, fun _ => rfl⟩
  | dup =>
      match xs, h with
      | x :: xs, _ => exact ⟨[x, x], rfl, nofun⟩
  | swap =>
      match xs, h with
      | x :: y :: xs, _ => exact ⟨[y, x], rfl, nofun⟩
  | rot =>
      match xs, h with
      | x :: y :: z :: xs, _ => exact ⟨[z, x, y], rfl, nofun⟩

/-! ## Moves and a change of items -/

theorem StackMove.apply_map (m : StackMove) (f : α → β) (xs : List α) :
    m.apply (xs.map f) = (m.apply xs).map f := by
  cases m with
  | pop => exact List.map_tail.symm
  | dup => cases xs <;> rfl
  | swap =>
      match xs with
      | [] | [_] | _ :: _ :: _ => rfl
  | rot =>
      match xs with
      | [] | [_] | [_, _] | _ :: _ :: _ :: _ => rfl
  | flush => rfl

theorem DepthMove.apply_map (m : DepthMove) (depth : Int) (f : α → β) (xs : List α) :
    m.apply depth (xs.map f) = (m.apply depth xs).map f := by
  cases m with
  | yank =>
      simp only [DepthMove.apply, Stack.yank, List.length_map, List.getElem?_map]
      cases xs[Stack.clamp depth (xs.length - 1)]? with
      | none => rfl
      | some x => simp only [Option.map_some, List.map_cons, List.eraseIdx_map]
  | yankDup =>
      simp only [DepthMove.apply, Stack.yankDup, List.length_map, List.getElem?_map]
      cases xs[Stack.clamp depth (xs.length - 1)]? with
      | none => rfl
      | some x => rfl
  | shove =>
      match xs with
      | [] => rfl
      | x :: xs =>
          simp only [DepthMove.apply, Stack.shove, List.map_cons, List.length_map]
          exact (List.map_insertIdx f _ _ _).symm

end PushFitness
