import FleetUpgrade.Binary64.Text

/-!
# Numerals

A numeral is the written form of a number: digits before the point, digits after it, and a power
of ten. A numeral without point and power that fits sixty-four bits is a whole number; any other
is a binary64 number.

Reading a binary64 number takes as many leading digits as fit an unsigned word, rounds them to a
number, and multiplies or divides it by a power of ten that is itself rounded. The result can
differ in its last bit from the number nearest to the numeral.
-/

namespace FleetUpgrade.Json

open Decimal (Digit)

structure Power where
  negative : Bool
  digits : List Digit
  deriving DecidableEq

/-- The written form of a number. No `fraction` means that there is no point. -/
structure Numeral where
  negative : Bool
  whole : List Digit
  fraction : List Digit
  power : Option Power
  deriving DecidableEq

namespace Numeral

/-- The characters of a numeral. A power always shows its sign. -/
def text (n : Numeral) : List Char :=
  (if n.negative then ['-'] else []) ++ Decimal.text n.whole ++
    (if n.fraction = [] then [] else '.' :: Decimal.text n.fraction) ++
    match n.power with
    | none => []
    | some p => 'e' :: (if p.negative then '-' else '+') :: Decimal.text p.digits

def ofInt (i : Int) : Numeral :=
  ⟨i < 0, Decimal.ofNat i.natAbs, [], none⟩

/-- The whole number written, if there is neither point nor power and the number has sixty-four
bits. A negative zero is no whole number. -/
def toInt64? (n : Numeral) : Option Int64 :=
  if n.fraction = [] ∧ n.power = none then
    let m := Decimal.value n.whole
    if n.negative then
      if 0 < m ∧ m ≤ Nat.pow 2 63 then some (Int64.ofInt (-(m : Int))) else none
    else if m < Nat.pow 2 63 then some (Int64.ofInt m) else none
  else none

/-- Take digits into a number while it stays below 2⁶⁴; the digits left over are returned. -/
def absorb (n : Nat) : List Digit → Nat × List Digit
  | [] => (n, [])
  | d :: ds => if n * 10 + d.val < Nat.pow 2 64 then absorb (n * 10 + d.val) ds else (n, d :: ds)

/-- Leading digits as a number, and the power of ten to scale it by. -/
def scaled (n : Numeral) : Nat × Int :=
  let whole := absorb 0 n.whole
  let all := absorb whole.1 n.fraction
  let taken := n.fraction.length - all.2.length
  let shift : Int :=
    match n.power with
    | none => 0
    | some p => if p.negative then -(Decimal.value p.digits : Int) else Decimal.value p.digits
  (all.1, (whole.2.length : Int) - taken + shift)

/-- The number nearest to a whole number, unless it is beyond the finite ones. -/
def powerOfTen? (e : Nat) : Option Binary64 :=
  Binary64.ofFraction? (Nat.pow 10 e) 1

/-- Divide by `step` the given number of times, stopping at zero. -/
def descend (step : Binary64) : Nat → Binary64 → Option Binary64
  | 0, x => some x
  | times + 1, x => if x.isZero then some x else (x.div? step).bind (descend step times)

/--
Scale a number by a power of ten.

Beyond 10³⁰⁸ a number other than zero is out of range; below 10⁻³⁰⁸ the division is made in steps
of 10³⁰⁸ first, until the rest of the power fits.
-/
def scale? (x : Binary64) (e : Int) : Option Binary64 :=
  let size := e.natAbs
  if 0 ≤ e then
    if size ≤ 308 then (powerOfTen? size).bind x.mul?
    else if x.isZero then some x
    else none
  else
    let steps := (size - 1) / 308
    (powerOfTen? 308).bind fun step =>
      (descend step steps x).bind fun y => (powerOfTen? (size - 308 * steps)).bind y.div?

def toBinary64? (n : Numeral) : Option Binary64 :=
  let (digits, e) := n.scaled
  ((Binary64.ofFraction? digits 1).bind fun x => scale? x e).map (Binary64.withSign n.negative)

/--
The numeral of a binary64 number: plain from 10⁻⁵ up to but excluding 10¹⁶, with a digit after the
point, and as one digit, further digits and a power of ten elsewhere. From a tie between two
shortest decimals the even one is taken.
-/
def ofBinary64 (x : Binary64) : Numeral :=
  let d := x.shortest .toEven
  let e := d.magnitude
  if -5 ≤ e ∧ e < 16 then
    let parts := d.positional
    ⟨x.negative, parts.1, if parts.2 = [] then [.zero] else parts.2, none⟩
  else
    let ds := Decimal.ofNat d.coefficient
    ⟨x.negative, ds.take 1, ds.drop 1, some ⟨e < 0, Decimal.ofNat e.natAbs⟩⟩

end Numeral

end FleetUpgrade.Json
