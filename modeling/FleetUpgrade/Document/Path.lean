import FleetUpgrade.Document.Basic
import FleetUpgrade.Decimal.Digit
import FleetUpgrade.Text.Search
import FleetUpgrade.Text.Quoted

/-!
# Paths into documents

A path names a place inside a document by segments between dots. A segment is a field name where
a document stands and an index where a list stands.

Reading a place gives nothing where no value stands. Writing a place creates the documents on the
way that are missing, and they remain when the writing fails further on. Clearing a place takes a
field out and puts null into a list.
-/

namespace FleetUpgrade

inductive FieldError where
  | missing (field : String)
  | wrongKind (field : String) (expected found : Kind)
  /-- the path leads nowhere -/
  | invalidPath (path : String)
  deriving DecidableEq

def FieldError.message : FieldError → String
  | .missing field => "field " ++ Text.quoted field ++ " is missing"
  | .wrongKind field expected found =>
      "field " ++ Text.quoted field ++ " is " ++ found.name ++ ", expected " ++ expected.name
  | .invalidPath path => "invalid field path " ++ Text.quoted path

namespace Path

/-- The segments of a path; there is always at least one. -/
def segments (path : String) : List String :=
  (Text.segments '.' path.toList).map String.ofList

/-- The number written by digits alone, if it fits an unsigned word of sixty-four bits. -/
def digitsIndex? (cs : List Char) : Option Nat :=
  if cs ≠ [] ∧ (Decimal.span cs).2 = [] ∧ Decimal.value (Decimal.span cs).1 < Nat.pow 2 64 then
    some (Decimal.value (Decimal.span cs).1)
  else none

/-- The index a segment writes: digits, after at most one plus sign. -/
def index? (segment : String) : Option Nat :=
  match segment.toList with
  | '+' :: cs => digitsIndex? cs
  | cs => digitsIndex? cs

end Path

namespace Value

def getAt : List String → Value → Option Value
  | [], v => some v
  | segment :: rest, .document fields => (Fields.get? fields segment).bind (getAt rest)
  | segment :: rest, .list items =>
      (Path.index? segment).bind fun i => items[i]?.bind (getAt rest)
  | _ :: _, _ => none

/-- Write `new` at a place inside a value: what the value becomes, and why the writing failed if it
did. The failure names the whole path. -/
def setAt (path : String) (new : Value) : List String → Value → Value × Option FieldError
  | [], _ => (new, none)
  | segment :: rest, .document fields =>
      if segment = "" then (.document fields, some (.invalidPath path))
      else
        let child := setAt path new rest ((Fields.get? fields segment).getD (.document []))
        (.document (Fields.put segment child.1 fields), child.2)
  | segment :: rest, .list items =>
      match (Path.index? segment).bind fun i => items[i]?.map fun item => (i, item) with
      | none => (.list items, some (.invalidPath path))
      | some (i, item) =>
          let child := setAt path new rest item
          (.list (items.set i child.1), child.2)
  | _ :: _, v => (v, some (.wrongKind path .document v.kind))

def unsetAt : List String → Value → Value
  | [], v => v
  | [segment], .document fields => .document (Fields.erase segment fields)
  | segment :: rest, .document fields =>
      match Fields.get? fields segment with
      | none => .document fields
      | some child => .document (Fields.put segment (unsetAt rest child) fields)
  | segment :: rest, .list items =>
      match (Path.index? segment).bind fun i => items[i]?.map fun item => (i, item) with
      | none => .list items
      | some (i, item) => .list (items.set i (if rest = [] then .null else unsetAt rest item))
  | _ :: _, v => v

end Value

namespace Document

/-- The fields of a value that is a document; other values have none. -/
def ofValue : Value → Document
  | .document fields => ⟨fields⟩
  | _ => empty

def getPath (d : Document) (path : String) : Option Value :=
  (Value.ofDocument d).getAt (Path.segments path)

/-- Write a value at a path: the document afterwards, and why the writing failed if it did. -/
def setPath (d : Document) (path : String) (value : Value) : Document × Option FieldError :=
  let result := Value.setAt path value (Path.segments path) (Value.ofDocument d)
  (ofValue result.1, result.2)

/-- Clear the place at a path; where no value stands, nothing changes. -/
def unsetPath (d : Document) (path : String) : Document :=
  ofValue (Value.unsetAt (Path.segments path) (Value.ofDocument d))

/-- The value at a path, which must be there. -/
def require (d : Document) (path : String) : Except FieldError Value :=
  match d.getPath path with
  | some v => .ok v
  | none => .error (.missing path)

def getString (d : Document) (path : String) : Except FieldError String :=
  match d.require path with
  | .error e => .error e
  | .ok (.string s) => .ok s
  | .ok v => .error (.wrongKind path .string v.kind)

def getInt (d : Document) (path : String) : Except FieldError Int64 :=
  match d.require path with
  | .error e => .error e
  | .ok (.int i) => .ok i
  | .ok v => .error (.wrongKind path .int v.kind)

def getBool (d : Document) (path : String) : Except FieldError Bool :=
  match d.require path with
  | .error e => .error e
  | .ok (.bool b) => .ok b
  | .ok v => .error (.wrongKind path .bool v.kind)

def getDocument (d : Document) (path : String) : Except FieldError Document :=
  match d.require path with
  | .error e => .error e
  | .ok (.document fields) => .ok ⟨fields⟩
  | .ok v => .error (.wrongKind path .document v.kind)

def getList (d : Document) (path : String) : Except FieldError (List Value) :=
  match d.require path with
  | .error e => .error e
  | .ok (.list items) => .ok items
  | .ok v => .error (.wrongKind path .list v.kind)

/-- The string at a path, if anything is there. -/
def getString? (d : Document) (path : String) : Except FieldError (Option String) :=
  match d.getPath path with
  | none => .ok none
  | some (.string s) => .ok (some s)
  | some v => .error (.wrongKind path .string v.kind)

/-- The document's id: the string in its id field. -/
def id (d : Document) : Except FieldError String :=
  d.getString idField

end Document

end FleetUpgrade
