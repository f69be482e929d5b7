/-!
# Bytes as text

Bytes are read as UTF-8. Each longest run of bytes that starts a character but cannot be
completed, and each byte that starts none, becomes one replacement character.
-/

namespace FleetUpgrade.Text.Utf8

/-- The character that stands for bytes that are no text. -/
def replacement : Char := Char.ofNat 0xfffd

/-- How a first byte announces its character: bytes to follow, the bits it gives, and the range
of the second byte. -/
structure Lead where
  following : Nat
  bits : Nat
  low : Nat
  high : Nat

def lead? (byte : UInt8) : Option Lead :=
  let b := byte.toNat
  if 0xc2 ≤ b ∧ b ≤ 0xdf then some ⟨1, b - 0xc0, 0x80, 0xbf⟩
  else if b = 0xe0 then some ⟨2, 0, 0xa0, 0xbf⟩
  else if b = 0xed then some ⟨2, 0xd, 0x80, 0x9f⟩
  else if 0xe1 ≤ b ∧ b ≤ 0xef then some ⟨2, b - 0xe0, 0x80, 0xbf⟩
  else if b = 0xf0 then some ⟨3, 0, 0x90, 0xbf⟩
  else if 0xf1 ≤ b ∧ b ≤ 0xf3 then some ⟨3, b - 0xf0, 0x80, 0xbf⟩
  else if b = 0xf4 then some ⟨3, 4, 0x80, 0x8f⟩
  else none

/-- What the bytes read so far have announced: the bits gathered and the bytes still owed. -/
inductive State where
  | start
  | inside (bits owed low high : Nat)

/-- Read one byte between characters: what is written, and the state after it. -/
def begin (byte : UInt8) : List Char × State :=
  if byte.toNat < 0x80 then ([Char.ofNat byte.toNat], .start)
  else
    match lead? byte with
    | some lead => ([], .inside lead.bits lead.following lead.low lead.high)
    | none => ([replacement], .start)

/--
Read one byte.

A byte that cannot continue the character begun closes it with one replacement and is read again
between characters.
-/
def step : State → UInt8 → List Char × State
  | .start, byte => begin byte
  | .inside bits owed low high, byte =>
      if low ≤ byte.toNat ∧ byte.toNat ≤ high then
        let bits := bits * 64 + (byte.toNat - 0x80)
        if owed ≤ 1 then ([Char.ofNat bits], .start)
        else ([], .inside bits (owed - 1) 0x80 0xbf)
      else (replacement :: (begin byte).1, (begin byte).2)

/-- Read bytes from a state; a character left open at the end becomes one replacement. -/
def decodeFrom : State → List UInt8 → List Char
  | .start, [] => []
  | .inside .., [] => [replacement]
  | state, byte :: rest => (step state byte).1 ++ decodeFrom (step state byte).2 rest

def decodeLossy (bytes : List UInt8) : String :=
  String.ofList (decodeFrom .start bytes)

end FleetUpgrade.Text.Utf8
