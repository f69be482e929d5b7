/-!
# Hexadecimal digits

Lower-case digits of numbers and of bytes, and reading them back.
-/

namespace FleetUpgrade.Text.Hex

/-- The lower-case digit with the given value; values above fifteen have none and give `'0'`. -/
def digit (n : Nat) : Char :=
  if n < 10 then Char.ofNat (48 + n) else if n < 16 then Char.ofNat (87 + n) else '0'

def value? (c : Char) : Option Nat :=
  let n := c.toNat
  if 48 ≤ n ∧ n ≤ 57 then some (n - 48)
  else if 97 ≤ n ∧ n ≤ 102 then some (n - 87)
  else if 65 ≤ n ∧ n ≤ 70 then some (n - 55)
  else none

/-- The digits of a number without leading zeros; zero is written `0`. -/
def digits (n : Nat) : List Char :=
  if n < 16 then [digit n] else digits (n / 16) ++ [digit (n % 16)]
termination_by n
decreasing_by omega

/-- The last `width` digits of a number, most significant first. -/
def padded : Nat → Nat → List Char
  | 0, _ => []
  | width + 1, n => padded width (n / 16) ++ [digit (n % 16)]

def ofBytes (bytes : List UInt8) : List Char :=
  bytes.flatMap fun byte => padded 2 byte.toNat

/-- The value of a run of digits; nothing when some character is no digit. -/
def number? (cs : List Char) : Option Nat :=
  cs.foldlM (fun n c => (value? c).map (n * 16 + ·)) 0

def bytes? : List Char → Option (List UInt8)
  | [] => some []
  | [_] => none
  | high :: low :: rest =>
      match value? high, value? low, bytes? rest with
      | some h, some l, some bs => some (UInt8.ofNat (h * 16 + l) :: bs)
      | _, _, _ => none

end FleetUpgrade.Text.Hex
