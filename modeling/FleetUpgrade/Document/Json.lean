import FleetUpgrade.Document.Basic
import FleetUpgrade.Json.Reader
import FleetUpgrade.Json.Printer

/-!
# Documents as JSON

Every kind of value has its JSON form. A numeral decodes as a whole number where it can, and as a
binary64 number otherwise; of a repeated name the first place and the last value count.

Decoding is given the room that is left for nested arrays and objects. A whole text has room for
127 of them.
-/

namespace FleetUpgrade

/-- Nested arrays and objects that a whole text may have. -/
def Json.room : Nat := 127

namespace Value

mutual

def toJson : Value → Json
  | .null => .null
  | .bool b => .bool b
  | .int i => .ofInt i.toInt
  | .float x => .number (.ofBinary64 x)
  | .string s => .string s
  | .list items => .array (itemsToJson items)
  | .document fields => .object (fieldsToJson fields)

def itemsToJson : List Value → List Json
  | [] => []
  | item :: items => item.toJson :: itemsToJson items

def fieldsToJson : List (String × Value) → List (String × Json)
  | [] => []
  | (name, value) :: fields => (name, value.toJson) :: fieldsToJson fields

end

mutual

/-- The value of a JSON tree, unless a number is out of range or something is garbled. -/
def ofJson? : Json → Option Value
  | .null => some .null
  | .bool b => some (.bool b)
  | .number n =>
      match n.toInt64? with
      | some i => some (.int i)
      | none => n.toBinary64?.map .float
  | .string s => some (.string s)
  | .array items => (itemsOfJson? items).map .list
  | .object fields => (fieldsOfJson? fields).map fun fs => .document (Fields.collapse fs)
  | .garbled => none

def itemsOfJson? : List Json → Option (List Value)
  | [] => some []
  | item :: items =>
      match ofJson? item, itemsOfJson? items with
      | some v, some vs => some (v :: vs)
      | _, _ => none

def fieldsOfJson? : List (String × Json) → Option (List (String × Value))
  | [] => some []
  | (name, item) :: fields =>
      match ofJson? item, fieldsOfJson? fields with
      | some v, some vs => some ((name, v) :: vs)
      | _, _ => none

end

/-- Decode a value that must not nest deeper than `room`. -/
def decode? (room : Nat) (j : Json) : Option Value :=
  if j.nesting ≤ room then ofJson? j else none

def parse? (text : String) : Option Value :=
  (Json.parse? text).bind (decode? Json.room)

def jsonText (v : Value) : String :=
  v.toJson.compact

end Value

namespace Document

def toJson (d : Document) : Json :=
  (Value.ofDocument d).toJson

def jsonText (d : Document) : String :=
  d.toJson.compact

def decode? (room : Nat) : Json → Option Document
  | .object fields =>
      match Value.decode? room (.object fields) with
      | some (.document fs) => some ⟨fs⟩
      | _ => none
  | _ => none

end Document

end FleetUpgrade
