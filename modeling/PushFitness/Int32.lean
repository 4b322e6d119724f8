/-!
# Integers of 32 bits

Machine integers are ordinary integers from `-2 ^ 31` to `2 ^ 31 - 1`. Results are
computed exactly and then reduced to the one number of that range that is
congruent to them modulo `2 ^ 32`.
-/

namespace PushFitness.Int32

/-- The number in the signed 32-bit range that is congruent to `n` modulo `2 ^ 32`. -/
def wrap (n : Int) : Int := n.bmod 4294967296

/-- The quotient cut towards zero; zero when dividing by zero. -/
def quotient (a b : Int) : Int := a.tdiv b

/-- The remainder with the sign of the dividend; zero when dividing by zero. -/
def remainder (a b : Int) : Int := if b = 0 then 0 else a.tmod b

end PushFitness.Int32
