import FleetUpgrade.Operation.Basic
import FleetUpgrade.Text.Search

/-!
# Document ids

An id is a scope and a local part with a colon between them, both non-empty; the first colon
counts. A stored id never changes, so a document gets a new id by being removed under the old one
and inserted under the new one, without the fields that the store keeps for itself.
-/

namespace FleetUpgrade

namespace DocId

/-- The scope and the local part of an id. -/
def split? (id : String) : Option (String × String) :=
  match Text.cutFirst ':' id with
  | some (scope, localPart) =>
      if scope = "" ∨ localPart = "" then none else some (scope, localPart)
  | none => none

/-- The local part of an id; an id without a scope is its own local part. -/
def localPart (id : String) : String :=
  match split? id with
  | some (_, localPart) => localPart
  | none => id

end DocId

/-- Fields that a store keeps for itself. -/
def bookkeepingFields : List String :=
  [Document.idField, "txn-revno", "txn-queue"]

def Document.withoutBookkeeping (d : Document) : Document :=
  d.without bookkeepingFields

/-- Move a document: remove the old id from one collection and insert `body` under the new id in
another. -/
def relocate (source oldId target newId : String) (body : Document) : Transaction :=
  [.remove source oldId, .insert target newId body]

end FleetUpgrade
