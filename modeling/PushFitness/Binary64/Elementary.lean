import PushFitness.Binary64.Basic

/-!
# Elementary functions

Sine, cosine, tangent, exponential and natural logarithm are those of the
machine. What is fixed here is where they have no value: the circular functions
at an infinity, the logarithm at zero and below, and the exponential where the
result would leave the finite range although the argument is finite.
-/

namespace PushFitness.Binary64

/-- Applies a function of the machine's floating-point unit. -/
def viaMachine (f : Float → Float) (x : Binary64) : Binary64 :=
  ofBits (f (Float.ofBits x.toBits)).toBits

def sin? (x : Binary64) : Option Binary64 :=
  if x.isInfinite then none else some (viaMachine Float.sin x)

def cos? (x : Binary64) : Option Binary64 :=
  if x.isInfinite then none else some (viaMachine Float.cos x)

def tan? (x : Binary64) : Option Binary64 :=
  if x.isInfinite then none else some (viaMachine Float.tan x)

def exp? (x : Binary64) : Option Binary64 :=
  let y := viaMachine Float.exp x
  if y.isInfinite && x.isFinite then none else some y

/-- The natural logarithm. -/
def ln? : Binary64 → Option Binary64
  | nan => some nan
  | signed negative m =>
    if negative || m.isZero then none else some (viaMachine Float.log (signed negative m))

end PushFitness.Binary64
