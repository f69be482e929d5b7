/-!
# Finite binary64 numbers

A finite number is a sign and a magnitude. The magnitude counts the non-negative finite numbers
in increasing order from zero, which is also their bit pattern without the sign. Every finite
number is a whole multiple of 2⁻¹⁰⁷⁴; `units` is that multiple.

Products, quotients and fractions are formed exactly and rounded once, to the nearest number and
from a tie to the even magnitude.
-/

namespace FleetUpgrade

/-- The magnitude after the greatest finite one. -/
def Binary64.limit : Nat := 0x7ff * Nat.pow 2 52

/-- A finite binary64 number. -/
structure Binary64 where
  negative : Bool
  magnitude : Nat
  finite : magnitude < Binary64.limit
  deriving DecidableEq

namespace Binary64

/-- Multiple of 2⁻¹⁰⁷⁴ that a magnitude stands for. -/
def unitsOf (magnitude : Nat) : Nat :=
  if magnitude / Nat.pow 2 52 = 0 then magnitude
  else (Nat.pow 2 52 + magnitude % Nat.pow 2 52) * Nat.pow 2 (magnitude / Nat.pow 2 52 - 1)

/-- Multiple of 2⁻¹⁰⁷⁴ that the number is, its sign aside. -/
def units (x : Binary64) : Nat :=
  unitsOf x.magnitude

/-- The quotient rounded to the nearest whole number, from a tie to the even one. -/
def roundDiv (num den : Nat) : Nat :=
  let q := num / den
  let twice := 2 * (num % den)
  if twice < den then q
  else if den < twice then q + 1
  else if q % 2 = 0 then q else q + 1

/--
Magnitude nearest to the fraction `num / den` of units.

The step is the least power of two for which the rounded quotient has at most fifty-three bits.
A quotient that rounds up to the next power of two carries into the step.
-/
def nearest (num den : Nat) : Nat :=
  let step := ((num / den).log2 + 1) - 53
  step * Nat.pow 2 52 + roundDiv num (den * Nat.pow 2 step)

def ofMagnitude? (negative : Bool) (magnitude : Nat) : Option Binary64 :=
  if h : magnitude < limit then some ⟨negative, magnitude, h⟩ else none

/-- The non-negative number nearest to a fraction, unless it is beyond the finite ones. -/
def ofFraction? (num den : Nat) : Option Binary64 :=
  ofMagnitude? false (nearest (num * Nat.pow 2 1074) den)

def zero : Binary64 :=
  ⟨false, 0, by decide⟩

def withSign (negative : Bool) (x : Binary64) : Binary64 :=
  { x with negative }

/-- The product of two non-negative numbers, unless it is beyond the finite ones. -/
def mul? (x y : Binary64) : Option Binary64 :=
  ofMagnitude? false (nearest (x.units * y.units) (Nat.pow 2 1074))

/-- The quotient of two non-negative numbers, unless it is beyond the finite ones. -/
def div? (x y : Binary64) : Option Binary64 :=
  ofMagnitude? false (nearest (x.units * Nat.pow 2 1074) y.units)

def isZero (x : Binary64) : Bool :=
  x.magnitude == 0

/-- Equality of values: the two zeros are equal, all other numbers are equal only to themselves. -/
def equal (x y : Binary64) : Bool :=
  x.magnitude == y.magnitude && (x.negative == y.negative || x.isZero)

end Binary64

end FleetUpgrade
