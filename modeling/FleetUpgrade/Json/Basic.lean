import FleetUpgrade.Json.Numeral

/-!
# JSON trees

A tree keeps what was written: the numerals as numerals, and the fields of an object in order
with their repetitions. What a tree means is decided where it is decoded.

A string may escape one half of a surrogate pair without the other. Such a string is well formed
but no text, and a tree keeps of it only that it is there.
-/

namespace FleetUpgrade

inductive Json where
  | null
  | bool (b : Bool)
  | number (n : Json.Numeral)
  | string (s : String)
  | array (items : List Json)
  | object (fields : List (String × Json))
  /-- a string that is no text, or an object with such a name -/
  | garbled
  deriving Inhabited

namespace Json

mutual

/-- How many arrays and objects stand inside one another at the deepest place. -/
def nesting : Json → Nat
  | .array items => nestingItems items + 1
  | .object fields => nestingFields fields + 1
  | _ => 0

def nestingItems : List Json → Nat
  | [] => 0
  | item :: items => max item.nesting (nestingItems items)

def nestingFields : List (String × Json) → Nat
  | [] => 0
  | (_, item) :: fields => max item.nesting (nestingFields fields)

end

def ofInt (i : Int) : Json :=
  .number (.ofInt i)

def ofNat (n : Nat) : Json :=
  ofInt n

/-- The value of the last field of that name. -/
def field? (name : String) : Json → Option Json
  | .object fields => fields.reverse.lookup name
  | _ => none

def string? : Json → Option String
  | .string s => some s
  | _ => none

def bool? : Json → Option Bool
  | .bool b => some b
  | _ => none

def array? : Json → Option (List Json)
  | .array items => some items
  | _ => none

def object? : Json → Option (List (String × Json))
  | .object fields => some fields
  | _ => none

def int? : Json → Option Int
  | .number n => n.toInt64?.map Int64.toInt
  | _ => none

end Json

end FleetUpgrade
