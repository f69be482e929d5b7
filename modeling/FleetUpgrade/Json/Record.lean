import FleetUpgrade.Json.Basic

/-!
# Records and variants

A record is written as an object or, with its fields in their fixed order, as an array. In an
object a known name must not repeat and unknown names are passed over; an array must not have more
items than the record has fields. A variant without contents is written as its name; any variant
is written as an object whose only field has the variant's name.
-/

namespace FleetUpgrade.Json

def valuesOf (name : String) (fields : List (String × Json)) : List Json :=
  fields.filterMap fun field => if field.1 = name then some field.2 else none

/-- The value of one name, if there is one; nothing at all if there are several. -/
def fieldOnce? (name : String) (fields : List (String × Json)) : Option (Option Json) :=
  match valuesOf name fields with
  | [] => some none
  | [item] => some (some item)
  | _ => none

/-- The values of a record's fields in their fixed order; those left out are `none`. -/
def record? (names : List String) : Json → Option (List (Option Json))
  | .object fields => names.mapM fun name => fieldOnce? name fields
  | .array items =>
      if items.length ≤ names.length then
        some (items.map some ++ List.replicate (names.length - items.length) none)
      else none
  | _ => none

/-- The name of a variant and its contents, if any are written. -/
def variant? : Json → Option (String × Option Json)
  | .string name => some (name, none)
  | .object [(name, item)] => some (name, some item)
  | _ => none

def plainVariant? (j : Json) : Option String :=
  match variant? j with
  | some (name, none) => some name
  | some (name, some .null) => some name
  | _ => none

def strings? : Json → Option (List String)
  | .array items => items.mapM string?
  | _ => none

end FleetUpgrade.Json
