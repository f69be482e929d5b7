import FleetUpgrade.Binary64.Shortest

/-!
# Plain decimal text of a number

`positional` lays the shortest decimal out around a point. In messages a number is written that
way whatever its size, without a point when it is whole.
-/

namespace FleetUpgrade.Binary64

open Decimal (Digit)

/-- Digits before and after the point. There is always a digit before it. -/
def Scaled.positional (d : Scaled) : List Digit × List Digit :=
  let ds := Decimal.ofNat d.coefficient
  if 0 ≤ d.exponent then (ds ++ List.replicate d.exponent.toNat .zero, [])
  else
    let places := (-d.exponent).toNat
    if places < ds.length then (ds.take (ds.length - places), ds.drop (ds.length - places))
    else ([.zero], List.replicate (places - ds.length) .zero ++ ds)

def Scaled.magnitude (d : Scaled) : Int :=
  (Decimal.ofNat d.coefficient).length - 1 + d.exponent

/-- The text of a number in messages; of two equally near decimals the greater is taken. -/
def text (x : Binary64) : List Char :=
  let parts := (x.shortest .up).positional
  let body := Decimal.text parts.1 ++
    (if parts.2 = [] then [] else '.' :: Decimal.text parts.2)
  if x.negative then '-' :: body else body

end FleetUpgrade.Binary64
