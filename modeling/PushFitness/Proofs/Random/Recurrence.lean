import Mathlib.Logic.Function.Iterate
import PushFitness.Random.Twister

/-!
# The words of a generator as one sequence

A generator has its words in blocks: all of them are replaced at once when the last one has been
handed out. Put one behind the other, the blocks are a single sequence of words (`wordAt`), and in
this sequence every word is made of three earlier ones by a rule that is the same at all places
(`wordAt_add_size`). A twist works in its own block, so words at its front are already new when those
at its end are made; in the sequence this is of no importance.

What a generator still has to hand out is the part of the sequence from one place on (`stream`), and
to take a word is to go on by one place (`stream_word`).
-/

namespace PushFitness.Twister

/-- The rule: the top bit of a word and the other bits of the one behind it, shifted and mixed with
the word 397 places on. -/
def mixed (w next far : UInt32) : UInt32 :=
  let y := (w &&& 0x80000000) ||| (next &&& 0x7FFFFFFF)
  far ^^^ (y >>> 1) ^^^ (if y &&& 1 = 0 then 0 else 0x9908B0DF)

variable {state : Array UInt32}

/-! ## One twist -/

/-- A twist that has been made as far as some place. -/
def twistedTo (state : Array UInt32) (n : Nat) : Array UInt32 :=
  (List.range n).foldl (fun s i => s.setIfInBounds i (twisted s i)) state

theorem twistedTo_succ (n : Nat) : twistedTo state (n + 1) =
    (twistedTo state n).setIfInBounds n (twisted (twistedTo state n) n) := by
  rw [twistedTo, List.range_succ, List.foldl_append]
  rfl

theorem size_twistedTo (n : Nat) : (twistedTo state n).size = state.size := by
  induction n with
  | zero => rfl
  | succ n ih => rw [twistedTo_succ, Array.size_setIfInBounds, ih]

theorem size_twist (state : Array UInt32) : (twist state).size = state.size := size_twistedTo size

/-- A twist goes through the places in order, and changes each only once. -/
theorem getD_twistedTo {n j : Nat} (hn : n ≤ state.size) : (twistedTo state n).getD j 0 =
    if j < n then twisted (twistedTo state j) j else state.getD j 0 := by
  induction n with
  | zero => rfl
  | succ n ih =>
      have hsize : n < (twistedTo state n).size := by rw [size_twistedTo]; omega
      rw [twistedTo_succ, Array.getD_eq_getD_getElem?, Array.getElem?_setIfInBounds]
      by_cases hj : n = j
      · subst hj
        rw [if_pos rfl, if_pos hsize, if_pos (Nat.lt_succ_self n)]
        rfl
      · rw [if_neg hj, ← Array.getD_eq_getD_getElem?, ih (by omega)]
        by_cases hlt : j < n
        · rw [if_pos hlt, if_pos (by omega)]
        · rw [if_neg hlt, if_neg (by omega)]

/-- A place behind the last one is a place of the new block. -/
theorem getD_twistedTo_mod (hsize : state.size = size) {i j : Nat} (hi : i < size) (hij : i ≤ j)
    (hj : j < i + size) : (twistedTo state i).getD (j % size) 0 =
      if j < size then state.getD j 0 else (twist state).getD (j - size) 0 := by
  rw [getD_twistedTo (by omega)]
  by_cases hlt : j < size
  · rw [Nat.mod_eq_of_lt hlt, if_neg (by omega), if_pos hlt]
  · have hmod : j % size = j - size := by
      rw [Nat.mod_eq_sub_mod (by omega), Nat.mod_eq_of_lt (by omega)]
    rw [hmod, if_pos (by omega), if_neg hlt]
    show _ = (twistedTo state size).getD (j - size) 0
    rw [getD_twistedTo (by omega), if_pos (by omega)]

theorem getD_twist (hsize : state.size = size) {i : Nat} (hi : i < size) :
    (twist state).getD i 0 = mixed (state.getD i 0)
      (if i + 1 < size then state.getD (i + 1) 0 else (twist state).getD (i + 1 - size) 0)
      (if i + 397 < size then state.getD (i + 397) 0
        else (twist state).getD (i + 397 - size) 0) := by
  have hstate : (twistedTo state i).getD i 0 = state.getD i 0 := by
    rw [getD_twistedTo (by omega), if_neg (Nat.lt_irrefl i)]
  have hnew : (twist state).getD i 0 = twisted (twistedTo state i) i := by
    show (twistedTo state size).getD i 0 = _
    rw [getD_twistedTo (by omega), if_pos hi]
  have hlarge : 397 < size := by decide
  rw [hnew, twisted, hstate, getD_twistedTo_mod hsize hi (by omega) (by omega),
    getD_twistedTo_mod hsize hi (by omega) (by omega)]
  rfl

/-! ## All blocks -/

/-- The words of all blocks one behind the other. -/
def wordAt (state : Array UInt32) (k : Nat) : UInt32 :=
  (twist^[k / size] state).getD (k % size) 0

theorem size_iterate_twist (n : Nat) : (twist^[n] state).size = state.size := by
  induction n with
  | zero => rfl
  | succ n ih => rw [Function.iterate_succ_apply', size_twist, ih]

theorem wordAt_mul_add (state : Array UInt32) (n : Nat) {i : Nat} (hi : i < size) :
    wordAt state (size * n + i) = (twist^[n] state).getD i 0 := by
  have hpos : 0 < size := by decide
  rw [wordAt, Nat.mul_add_div hpos, Nat.div_eq_of_lt hi, Nat.add_zero, Nat.mul_add_mod,
    Nat.mod_eq_of_lt hi]

theorem wordAt_twist (k : Nat) : wordAt (twist state) k = wordAt state (k + size) := by
  have hpos : 0 < size := by decide
  rw [wordAt, wordAt, Nat.add_div_right k hpos, Nat.add_mod_right, Function.iterate_succ_apply]

/-- The words behind a block are those of the next one. -/
theorem wordAt_eq_ite (n : Nat) {j : Nat} (hj : j < 2 * size) :
    wordAt state (size * n + j) = if j < size then (twist^[n] state).getD j 0
      else (twist^[n + 1] state).getD (j - size) 0 := by
  split
  · next hlt => exact wordAt_mul_add state n hlt
  · next hlt =>
      have hplace : size * n + j = size * (n + 1) + (j - size) := by rw [Nat.mul_succ]; omega
      rw [hplace, wordAt_mul_add state (n + 1) (by omega)]

/-- Every word is made of three earlier ones. -/
theorem wordAt_add_size (hsize : state.size = size) (k : Nat) : wordAt state (k + size) =
    mixed (wordAt state k) (wordAt state (k + 1)) (wordAt state (k + 397)) := by
  have hpos : 0 < size := by decide
  have hlarge : 397 < size := by decide
  obtain ⟨n, i, hi, rfl⟩ : ∃ n i, i < size ∧ k = size * n + i :=
    ⟨k / size, k % size, Nat.mod_lt k hpos, (Nat.div_add_mod k size).symm⟩
  have hblock : (twist^[n] state).size = size := by rw [size_iterate_twist, hsize]
  have hnext : size * n + i + size = size * (n + 1) + i := by rw [Nat.mul_succ]; omega
  rw [hnext, wordAt_mul_add state (n + 1) hi, wordAt_mul_add state n hi, Nat.add_assoc,
    Nat.add_assoc, wordAt_eq_ite n (by omega), wordAt_eq_ite n (by omega),
    Function.iterate_succ_apply']
  exact getD_twist hblock hi

/-! ## What a generator hands out -/

/-- A generator that has its words, and has handed out some of them. -/
structure Sound (t : Twister) : Prop where
  size_eq : t.state.size = size
  used_le : t.used ≤ size

theorem Sound.of {state : Array UInt32} {used : Nat} (hsize : state.size = size)
    (hused : used ≤ size) : Sound ⟨state, used⟩ := ⟨hsize, hused⟩

/-- The words that a generator hands out from now on, before they are scrambled. -/
def stream (t : Twister) (k : Nat) : UInt32 := wordAt t.state (t.used + k)

variable {t : Twister}

theorem Sound.stream_add_size (h : t.Sound) (k : Nat) :
    t.stream (k + size) = mixed (t.stream k) (t.stream (k + 1)) (t.stream (k + 397)) := by
  simp only [stream, ← Nat.add_assoc]
  exact wordAt_add_size h.size_eq (t.used + k)

/-- To take a word is to go on by one place. -/
theorem Sound.word (h : t.Sound) : t.word.1 = temper (t.stream 0) ∧ t.word.2.Sound ∧
    ∀ k, t.word.2.stream k = t.stream (k + 1) := by
  have hone (k : Nat) : 1 + k = k + 1 := Nat.add_comm 1 k
  rw [Twister.word]
  split
  · next hused =>
      have hplace := wordAt_mul_add t.state 0 hused
      rw [Nat.mul_zero, Nat.zero_add] at hplace
      refine ⟨congrArg temper hplace.symm, ⟨h.size_eq, hused⟩, fun k => ?_⟩
      show stream ⟨t.state, t.used + 1⟩ k = t.stream (k + 1)
      rw [stream, stream, Nat.add_assoc, hone]
  · next hused =>
      have hall : t.used = size := Nat.le_antisymm h.used_le (Nat.not_lt.mp hused)
      have hplace := wordAt_mul_add t.state 1 (i := 0) (by decide)
      rw [Nat.mul_one, ← hall] at hplace
      have hsize : (twist t.state).size = size := (size_twist t.state).trans h.size_eq
      refine ⟨congrArg temper hplace.symm, .of hsize (by decide), fun k => ?_⟩
      show stream ⟨twist t.state, 1⟩ k = t.stream (k + 1)
      rw [stream, stream, wordAt_twist, hall, Nat.add_comm size, hone]

/-! ## Seeds -/

theorem size_ofWord (w : UInt32) : (ofWord w).size = size := by
  have hfold (f : Array UInt32 → Nat → UInt32) (n : Nat) :
      ((List.range n).foldl (fun s i => s.push (f s i)) #[w]).size = n + 1 := by
    induction n with
    | zero => rfl
    | succ n ih =>
        rw [List.range_succ, List.foldl_append]
        show (Array.push _ _).size = _
        rw [Array.size_push, ih]
  exact hfold _ (size - 1)

theorem Mixing.size_step (f : UInt32 → UInt32 → UInt32) (m : Mixing) :
    (m.step f).state.size = m.state.size := by
  rw [step]
  split
  · exact Array.size_setIfInBounds
  · exact Array.size_setIfInBounds.trans Array.size_setIfInBounds

theorem Mixing.size_foldl {α : Type} {f : Mixing → α → Mixing}
    (hf : ∀ m x, (f m x).state.size = m.state.size) (xs : List α) (state : Array UInt32)
    (place : Nat) : (xs.foldl f ⟨state, place⟩).state.size = state.size := by
  induction xs generalizing state place with
  | nil => rfl
  | cons x xs ih =>
      rw [List.foldl_cons]
      exact (ih _ _).trans (hf ⟨state, place⟩ x)

theorem size_ofKey (key : Array UInt32) : (ofKey key).size = size := by
  rw [ofKey, Array.size_setIfInBounds]
  refine (Mixing.size_foldl (fun m _ => Mixing.size_step _ m) _ _ _).trans ?_
  refine (Mixing.size_foldl (fun m _ => Mixing.size_step _ m) _ _ _).trans ?_
  exact size_ofWord 19650218

/-- A seed makes a generator that has its words. -/
theorem ofSeed_sound (seed : Int) : (ofSeed seed).Sound :=
  .of (size_ofKey (keyWords seed.natAbs).toArray) (Nat.le_refl size)

end PushFitness.Twister
