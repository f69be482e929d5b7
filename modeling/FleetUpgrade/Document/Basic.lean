import FleetUpgrade.Binary64.Basic
import FleetUpgrade.Table

/-!
# Documents

A document is a list of named values in the order in which the names were first given. Putting a
value under a name that is there keeps its place; a new name goes last; taking a name out keeps
the order of the rest.
-/

namespace FleetUpgrade

inductive Value where
  | null
  | bool (b : Bool)
  | int (i : Int64)
  | float (x : Binary64)
  | string (s : String)
  | list (items : List Value)
  | document (fields : List (String × Value))
  deriving Inhabited

inductive Kind where
  | null
  | bool
  | int
  | float
  | string
  | list
  | document
  deriving DecidableEq

def Kind.name : Kind → String
  | .null => "null"
  | .bool => "bool"
  | .int => "int"
  | .float => "float"
  | .string => "string"
  | .list => "list"
  | .document => "document"

abbrev Fields := List (String × Value)

namespace Fields

def get? (fields : Fields) (name : String) : Option Value :=
  Table.lookup name fields

/-- Put a value under a name: in its place if it is there, last otherwise. -/
def put (name : String) (value : Value) : Fields → Fields
  | [] => [(name, value)]
  | (key, old) :: rest =>
      if key = name then (name, value) :: rest else (key, old) :: put name value rest

def erase (name : String) (fields : Fields) : Fields :=
  fields.filter fun field => field.1 ≠ name

def names (fields : Fields) : List String :=
  fields.map Prod.fst

/-- The fields of a list in which names may repeat: a name keeps its first place and takes its
last value. -/
def collapse (fields : Fields) : Fields :=
  fields.foldl (fun done field => put field.1 field.2 done) []

theorem get?_put (fields : Fields) (name other : String) (value : Value) :
    get? (put name value fields) other =
      if name = other then some value else get? fields other := by
  induction fields with
  | nil => simp [put, get?, Table.lookup]
  | cons field rest ih =>
      obtain ⟨key, old⟩ := field
      simp only [get?] at ih
      by_cases hk : key = name
      · subst hk
        by_cases ho : key = other <;> simp [put, get?, Table.lookup, ho]
      · by_cases ho : key = other
        · subst ho
          have hne : ¬ name = key := fun e => hk e.symm
          simp [put, get?, Table.lookup, hk, hne]
        · simp [put, get?, Table.lookup, hk, ho, ih]

theorem get?_erase (fields : Fields) (name other : String) :
    get? (erase name fields) other = if name = other then none else get? fields other :=
  Table.lookup_filter_ne name other fields

end Fields

structure Document where
  fields : Fields
  deriving Inhabited

namespace Value

def kind : Value → Kind
  | .null => .null
  | .bool _ => .bool
  | .int _ => .int
  | .float _ => .float
  | .string _ => .string
  | .list _ => .list
  | .document _ => .document

def string? : Value → Option String
  | .string s => some s
  | _ => none

def ofDocument (d : Document) : Value :=
  .document d.fields

instance : Coe String Value :=
  ⟨.string⟩

instance : Coe Bool Value :=
  ⟨.bool⟩

instance : Coe Int64 Value :=
  ⟨.int⟩

instance : Coe Document Value :=
  ⟨ofDocument⟩

end Value

namespace Document

/-- Name of the field that holds a document's id. -/
def idField : String :=
  "_id"

def empty : Document :=
  ⟨[]⟩

def insert (d : Document) (name : String) (value : Value) : Document :=
  ⟨Fields.put name value d.fields⟩

def withId (id : String) : Document :=
  empty.insert idField id

/-- The document of a list of fields; a repeated name keeps its first place and takes its last
value. -/
def ofList (fields : Fields) : Document :=
  ⟨Fields.collapse fields⟩

def get? (d : Document) (name : String) : Option Value :=
  Fields.get? d.fields name

def contains (d : Document) (name : String) : Bool :=
  (d.get? name).isSome

/-- Put a value under a top-level name that is there already. -/
def replace (d : Document) (name : String) (value : Value) : Document :=
  if d.contains name then d.insert name value else d

def remove (d : Document) (name : String) : Document :=
  ⟨Fields.erase name d.fields⟩

def without (d : Document) (names : List String) : Document :=
  names.foldl remove d

def size (d : Document) : Nat :=
  d.fields.length

def isEmpty (d : Document) : Bool :=
  d.fields.isEmpty

def names (d : Document) : List String :=
  Fields.names d.fields

end Document

end FleetUpgrade
