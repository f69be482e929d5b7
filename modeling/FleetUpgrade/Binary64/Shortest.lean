import FleetUpgrade.Binary64.Basic
import FleetUpgrade.Decimal.Digit

/-!
# The fewest digits that read back

A decimal reads back as a number when it lies between the midpoints to the number's neighbours;
the midpoints themselves count when the magnitude is even. Among the decimals with the fewest
digits that read back, the one nearest to the number is taken.
-/

namespace FleetUpgrade.Binary64

/-- A decimal: a coefficient times a power of ten. -/
structure Scaled where
  coefficient : Nat
  exponent : Int
  deriving DecidableEq

/-- Which of two equally near decimals is taken. -/
inductive Tie where
  | toEven
  | up
  deriving DecidableEq

/-- Number of digits of a number; zero has none. -/
def width (n : Nat) : Nat :=
  if n = 0 then 0 else (Decimal.ofNat n).length

def leadingExponent (units : Nat) : Int :=
  if Nat.pow 2 1074 ≤ units then (width (units / Nat.pow 2 1074) : Int) - 1
  else -(width ((Nat.pow 2 1074 + units - 1) / units - 1) : Int)

/--
The decimal on the grid of multiples of 10ᵉ that reads back, if there is one.

Everything is compared in halves of a unit: `lower` and `upper` are the midpoints to the
neighbours and `twice` is the number itself.
-/
def onGrid? (tie : Tie) (magnitude : Nat) (e : Int) : Option Scaled :=
  let scale := Nat.pow 10 e.toNat * Nat.pow 2 1075
  let shrink := Nat.pow 10 (-e).toNat
  let here := unitsOf magnitude
  let lower := (unitsOf (magnitude - 1) + here) * shrink
  let upper := (here + unitsOf (magnitude + 1)) * shrink
  let twice := 2 * here * shrink
  let below := twice / scale
  let inside (d : Nat) : Bool :=
    if magnitude % 2 = 0 then lower ≤ d * scale ∧ d * scale ≤ upper
    else lower < d * scale ∧ d * scale < upper
  let rest := 2 * (twice % scale)
  let preferAbove : Bool :=
    if rest = scale then
      match tie with
      | .up => true
      | .toEven => below % 2 = 1
    else scale < rest
  if twice % scale = 0 then some ⟨below, e⟩
  else
    match inside below, inside (below + 1) with
    | true, true => some ⟨if preferAbove then below + 1 else below, e⟩
    | true, false => some ⟨below, e⟩
    | false, true => some ⟨below + 1, e⟩
    | false, false => none

/-- Search ever finer grids, `left` of them, and end on the grid of the last. -/
def search (tie : Tie) (magnitude : Nat) : Nat → Int → Scaled
  | 0, e => ⟨2 * unitsOf magnitude * Nat.pow 10 (-e).toNat / (Nat.pow 10 e.toNat * Nat.pow 2 1075), e⟩
  | left + 1, e =>
      match onGrid? tie magnitude e with
      | some d => d
      | none => search tie magnitude left (e - 1)

def Scaled.stripZeros (coefficient : Nat) (exponent : Int) : Scaled :=
  if _h : coefficient ≠ 0 ∧ coefficient % 10 = 0 then stripZeros (coefficient / 10) (exponent + 1)
  else ⟨coefficient, exponent⟩
termination_by coefficient
decreasing_by omega

/-- The shortest decimal of a number, its sign aside. Seventeen digits always suffice. -/
def shortest (tie : Tie) (x : Binary64) : Scaled :=
  if x.isZero then ⟨0, 0⟩
  else
    let found := search tie x.magnitude 17 (leadingExponent x.units)
    Scaled.stripZeros found.coefficient found.exponent

end FleetUpgrade.Binary64
