import FleetUpgrade.Json.Token

/-!
# Reading JSON

The tokens are read one at a time; the arrays and objects that are still open are kept on a
stack. Reading sets no limit to the depth. Of an object with a name that is no text, the fields
are read but not kept.
-/

namespace FleetUpgrade.Json

/-- An array or object that is still open, with what it holds so far, last first. -/
inductive Frame where
  | array (items : List Json)
  | object (fields : List (String × Json)) (key : String)
  | garbled

/-- What the reader waits for, below the frames that are open. -/
inductive Reading where
  /-- a value -/
  | value (frames : List Frame)
  /-- the first item of an array, or its end -/
  | firstItem (frames : List Frame)
  /-- the first name of an object, or its end -/
  | firstName (frames : List Frame)
  /-- the next name of an object -/
  | name (frames : List Frame) (fields : List (String × Json))
  /-- the colon after a name -/
  | colon (frames : List Frame) (fields : List (String × Json)) (key : String)
  /-- the next name of a garbled object -/
  | garbledName (frames : List Frame)
  /-- the colon after a name of a garbled object -/
  | garbledColon (frames : List Frame)
  /-- what may follow a complete value -/
  | after (frames : List Frame) (item : Json)

namespace Reading

def begin (frames : List Frame) : Token → Option Reading
  | .null => some (.after frames .null)
  | .bool b => some (.after frames (.bool b))
  | .number n => some (.after frames (.number n))
  | .string s => some (.after frames (.string s))
  | .garbled => some (.after frames .garbled)
  | .openArray => some (.firstItem frames)
  | .openObject => some (.firstName frames)
  | _ => none

/-- Read one token; nothing when it may not stand here. -/
def step : Reading → Token → Option Reading
  | .value frames, t => begin frames t
  | .firstItem frames, .closeArray => some (.after frames (.array []))
  | .firstItem frames, t => begin (.array [] :: frames) t
  | .firstName frames, .closeObject => some (.after frames (.object []))
  | .firstName frames, .string s => some (.colon frames [] s)
  | .firstName frames, .garbled => some (.garbledColon frames)
  | .name frames fields, .string s => some (.colon frames fields s)
  | .name frames _, .garbled => some (.garbledColon frames)
  | .garbledName frames, .string _ => some (.garbledColon frames)
  | .garbledName frames, .garbled => some (.garbledColon frames)
  | .colon frames fields key, .colon => some (.value (.object fields key :: frames))
  | .garbledColon frames, .colon => some (.value (.garbled :: frames))
  | .after (.array items :: frames) item, .comma => some (.value (.array (item :: items) :: frames))
  | .after (.array items :: frames) item, .closeArray =>
      some (.after frames (.array (item :: items).reverse))
  | .after (.object fields key :: frames) item, .comma =>
      some (.name frames ((key, item) :: fields))
  | .after (.object fields key :: frames) item, .closeObject =>
      some (.after frames (.object ((key, item) :: fields).reverse))
  | .after (.garbled :: frames) _, .comma => some (.garbledName frames)
  | .after (.garbled :: frames) _, .closeObject => some (.after frames .garbled)
  | _, _ => none

def run : Reading → List Token → Option Reading
  | state, [] => some state
  | state, t :: ts => (step state t).bind fun next => run next ts

end Reading

/-- The tree that a text writes, if it writes exactly one. -/
def parse? (text : String) : Option Json :=
  match (Token.tokens? text.toList).bind (Reading.run (.value [])) with
  | some (.after [] item) => some item
  | _ => none

end FleetUpgrade.Json
