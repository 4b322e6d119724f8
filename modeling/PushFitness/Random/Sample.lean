import PushFitness.Random.Twister

/-!
# Samples with replacement

A number below a bound is drawn by drawing as many bits as the bound has until they
are a number below it. Nothing in the drawing itself says that such a number comes;
if none does, nothing is said about the answer.
-/

namespace PushFitness.Twister

/-- The number of bits of a bound. -/
def width (bound : Nat) : Nat := bound.log2 + 1

/-- The number that has been drawn if it is below the bound, another one otherwise. -/
def keepOrRedraw (bound : Nat) (drawn : Nat × Twister) :
    (Nat × Twister) ⊕ (Nat × Twister) :=
  if drawn.1 < bound then .inr drawn else .inl (drawn.2.bits (width bound))

instance : Nonempty Twister := ⟨.ofSeed 0⟩

/-- Draws until the number is below the bound. -/
def below (bound : Nat) (t : Twister) : Option (Nat × Twister) :=
  repeatM (fun drawn => some (keepOrRedraw bound drawn)) (t.bits (width bound))

/-- Numbers below a bound, drawn one after the other. -/
def sample (bound : Nat) : (count : Nat) → Twister → Option (List Nat)
  | 0, _ => some []
  | count + 1, t =>
    match t.below bound with
    | none => none
    | some (n, t) => (sample bound count t).map (n :: ·)

end PushFitness.Twister
