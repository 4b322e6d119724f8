import PushFitness.Binary64.Magnitude

/-!
# Double-precision numbers

A double is either not a number or a sign and a magnitude. There is one
"not a number" only, because nothing here looks at its sign or payload.

Each arithmetic operation is its exact result in units, rounded once by
`Magnitude.nearest`. The cases that have no exact result (an infinity on either
side, a quotient by zero) are listed in front, so what remains is integer
arithmetic.
-/

namespace PushFitness

/-- A double-precision number. -/
inductive Binary64
  | nan
  | signed (negative : Bool) (magnitude : Magnitude)
deriving DecidableEq

namespace Binary64

open Magnitude (unitsPerOne nearest)

def zero : Binary64 := .signed false .zero

def infinity : Binary64 := .signed false .infinity

instance : Inhabited Binary64 := ⟨zero⟩

/-! ## Classes of doubles -/

def isNaN : Binary64 → Bool
  | nan => true
  | signed _ _ => false

def isInfinite : Binary64 → Bool
  | nan => false
  | signed _ m => m.isInfinite

def isFinite : Binary64 → Bool
  | nan => false
  | signed _ m => !m.isInfinite

/-- Zero of either sign. -/
def isZero : Binary64 → Bool
  | nan => false
  | signed _ m => m.isZero

/-! ## Rounding into the format -/

/-- The double nearest to `num / den` units. -/
def round (num : Int) (den : Nat) : Binary64 :=
  .signed (num < 0) (nearest num.natAbs den)

/-- The double nearest to an integer, infinite when the integer is out of range. -/
def ofInt (n : Int) : Binary64 := round (n * unitsPerOne) 1

/-- The double nearest to an integer, if the integer is in range. -/
def ofInt? (n : Int) : Option Binary64 :=
  if (ofInt n).isInfinite then none else some (ofInt n)

def one : Binary64 := ofInt 1

/-- What a finite double is worth in units; the rest counts as nothing. -/
def units : Binary64 → Int
  | nan => 0
  | signed negative m => if negative then -(m.units : Int) else m.units

/-- The integer part of a finite double, which is its value cut towards zero. -/
def truncate? : Binary64 → Option Int
  | nan => none
  | signed negative m =>
    if m.isInfinite then none
    else some ((signed negative m).units.tdiv unitsPerOne)

/-! ## Arithmetic -/

def neg : Binary64 → Binary64
  | nan => nan
  | signed negative m => signed (!negative) m

def abs : Binary64 → Binary64
  | nan => nan
  | signed _ m => signed false m

/-- The sum. An exact zero is negative only if both summands are. -/
def add : Binary64 → Binary64 → Binary64
  | nan, _ => nan
  | _, nan => nan
  | signed s a, signed t b =>
    if a.isInfinite then (if b.isInfinite && s != t then nan else signed s a)
    else if b.isInfinite then signed t b
    else
      let sum := (signed s a).units + (signed t b).units
      if sum = 0 then signed (s && t) .zero else round sum 1

def sub (x y : Binary64) : Binary64 := x.add y.neg

def mul : Binary64 → Binary64 → Binary64
  | nan, _ => nan
  | _, nan => nan
  | signed s a, signed t b =>
    if a.isInfinite || b.isInfinite then
      if a.isZero || b.isZero then nan else signed (s != t) .infinity
    else signed (s != t) (nearest (a.units * b.units) unitsPerOne)

def div : Binary64 → Binary64 → Binary64
  | nan, _ => nan
  | _, nan => nan
  | signed s a, signed t b =>
    if a.isInfinite then (if b.isInfinite then nan else signed (s != t) .infinity)
    else if b.isInfinite then signed (s != t) .zero
    else if b.isZero then (if a.isZero then nan else signed (s != t) .infinity)
    else signed (s != t) (nearest (a.units * unitsPerOne) b.units)

/-- The remainder of the division cut towards zero: it has the sign of the
dividend and is exact. An infinite dividend or a zero divisor has none. -/
def remainder : Binary64 → Binary64 → Binary64
  | nan, _ => nan
  | _, nan => nan
  | signed s a, signed _ b =>
    if a.isInfinite || b.isZero then nan
    else if b.isInfinite then signed s a
    else signed s (nearest (a.units % b.units) 1)

/-! ## Order -/

/-- The place of a magnitude, counted downwards for negative numbers. Both zeros
have the place 0. -/
def signedPlace (negative : Bool) (m : Magnitude) : Int :=
  if negative then -(m.place : Int) else m.place

/-- Numerical equality: zeros are equal, "not a number" equals nothing. -/
def eq : Binary64 → Binary64 → Bool
  | signed s a, signed t b => signedPlace s a = signedPlace t b
  | _, _ => false

def lt : Binary64 → Binary64 → Bool
  | signed s a, signed t b => signedPlace s a < signedPlace t b
  | _, _ => false

/-- The first operand unless the second is strictly smaller. -/
def min (x y : Binary64) : Binary64 := if y.lt x then y else x

/-- The first operand unless the second is strictly larger. -/
def max (x y : Binary64) : Binary64 := if x.lt y then y else x

/-! ## Bit patterns -/

/-- The worth of the sign bit. -/
def signBit : Nat := 0x8000000000000000

/-- The interchange encoding: the sign bit in front of the place. -/
def toBits : Binary64 → UInt64
  | nan => 0x7FF8000000000000
  | signed negative m =>
    UInt64.ofNat (if negative then signBit + m.place else m.place)

def ofBits (bits : UInt64) : Binary64 :=
  let place := bits.toNat % signBit
  if h : place ≤ 0x7FF0000000000000 then .signed (bits.toNat ≥ signBit) ⟨place, h⟩
  else nan

end Binary64

end PushFitness
