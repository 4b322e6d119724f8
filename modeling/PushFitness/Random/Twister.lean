/-!
# A pseudo-random generator of 32-bit words

The generator has 624 words of state. When all of them have been handed out, a
twist makes 624 new ones; each word is scrambled on its way out. A seed is an
integer of any size: its absolute value, cut into 32-bit words with the least
significant first, is mixed into the state.
-/

namespace PushFitness

namespace Twister

/-- The number of words of state. -/
def size : Nat := 624

/-- Two neighbouring bits of a word mixed into each other. -/
def spread (w : UInt32) : UInt32 := w ^^^ (w >>> 30)

/-- The state that a single word determines. -/
def ofWord (w : UInt32) : Array UInt32 :=
  (List.range (size - 1)).foldl
    (fun state i => state.push (1812433253 * spread (state.getD i 0) + UInt32.ofNat (i + 1)))
    #[w]

/-- A state and the place in it where the mixing goes on. -/
structure Mixing where
  state : Array UInt32
  place : Nat

namespace Mixing

/-- Replaces the word at the place by what `f` makes of it and the word before it, and
goes on to the next place. Behind the last place the last word is copied to the
front. -/
def step (f : UInt32 → UInt32 → UInt32) (m : Mixing) : Mixing :=
  let state := m.state.setIfInBounds m.place
    (f (m.state.getD m.place 0) (m.state.getD (m.place - 1) 0))
  if m.place + 1 < size then ⟨state, m.place + 1⟩
  else ⟨state.setIfInBounds 0 (state.getD (size - 1) 0), 1⟩

end Mixing

/-- The state after a key of words has been mixed in, every word at least once. -/
def ofKey (key : Array UInt32) : Array UInt32 :=
  let keyed := (List.range (max size key.size)).foldl
    (fun m i =>
      let j := i % key.size
      m.step fun w before =>
        (w ^^^ (spread before * 1664525)) + key.getD j 0 + UInt32.ofNat j)
    (⟨ofWord 19650218, 1⟩ : Mixing)
  let mixed := (List.range (size - 1)).foldl
    (fun m _ => m.step fun w before =>
      (w ^^^ (spread before * 1566083941)) - UInt32.ofNat m.place)
    keyed
  mixed.state.setIfInBounds 0 0x80000000

/-- One word of the next state: the top bit of a word and the other bits of the word
behind it, shifted and mixed with the word 397 places on. -/
def twisted (state : Array UInt32) (i : Nat) : UInt32 :=
  let y := (state.getD i 0 &&& 0x80000000)
    ||| (state.getD ((i + 1) % size) 0 &&& 0x7FFFFFFF)
  state.getD ((i + 397) % size) 0 ^^^ (y >>> 1) ^^^ (if y &&& 1 = 0 then 0 else 0x9908B0DF)

/-- The next state. Words that are already new are used for the later ones. -/
def twist (state : Array UInt32) : Array UInt32 :=
  (List.range size).foldl (fun s i => s.setIfInBounds i (twisted s i)) state

/-- A word of the state as it is handed out. -/
def temper (w : UInt32) : UInt32 :=
  let w := w ^^^ (w >>> 11)
  let w := w ^^^ ((w <<< 7) &&& 0x9D2C5680)
  let w := w ^^^ ((w <<< 15) &&& 0xEFC60000)
  w ^^^ (w >>> 18)

end Twister

/-- A generator: its state and how many words of it have been handed out. -/
structure Twister where
  state : Array UInt32
  used : Nat

namespace Twister

/-- The words of a number, the least significant first; a single zero for zero. -/
def keyWords (n : Nat) : List UInt32 :=
  UInt32.ofNat (n % UInt32.size) ::
    if _ : n < UInt32.size then [] else keyWords (n / UInt32.size)
termination_by n
decreasing_by
  have hle : UInt32.size ≤ n := Nat.not_lt.1 ‹_›
  exact Nat.div_lt_self (Nat.lt_of_lt_of_le (by decide) hle) (by decide)

/-- The generator for a seed. Seeds that differ only in sign give the same one. -/
def ofSeed (seed : Int) : Twister := ⟨ofKey (keyWords seed.natAbs).toArray, size⟩

/-- The next word. -/
def word (t : Twister) : UInt32 × Twister :=
  if t.used < size then (temper (t.state.getD t.used 0), { t with used := t.used + 1 })
  else
    let state := twist t.state
    (temper (state.getD 0 0), ⟨state, 1⟩)

/-- The next number of a given count of bits. It is filled from its least significant
end with whole words; the last word gives its top bits. -/
def bits (count : Nat) (t : Twister) : Nat × Twister :=
  if count ≤ 32 then
    let (w, t) := t.word
    (w.toNat >>> (32 - count), t)
  else
    let (w, t) := t.word
    let (high, t) := bits (count - 32) t
    (w.toNat + UInt32.size * high, t)
termination_by count

end Twister

end PushFitness
