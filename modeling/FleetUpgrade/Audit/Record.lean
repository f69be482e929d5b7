import FleetUpgrade.Operation.Json

/-!
# Audit records

A record describes one operation: its document, its kind and demand, and the fields it sets and
clears. The description is the same whether the operation was applied or previewed, and it
determines the operation (`toOperation_ofOperation`).
-/

namespace FleetUpgrade

/-- The description of one operation. For an insertion `fields.set` is the whole document; for a
removal there are no fields. -/
structure AuditRecord where
  collection : String
  id : String
  kind : OperationKind
  precondition : Precondition
  fields : Update

namespace AuditRecord

def ofOperation (op : Operation) : AuditRecord :=
  ⟨op.collection, op.id, op.kind, op.precondition,
    match op.change with
    | .insert body => ⟨body, []⟩
    | .update changes => changes
    | .remove => .empty⟩

def toOperation (r : AuditRecord) : Operation :=
  ⟨r.collection, r.id, r.precondition,
    match r.kind with
    | .insert => .insert r.fields.set
    | .update => .update r.fields
    | .remove => .remove⟩

theorem toOperation_ofOperation (op : Operation) : (ofOperation op).toOperation = op := by
  obtain ⟨collection, id, precondition, change⟩ := op
  cases change <;> rfl

def toJson (r : AuditRecord) : Json :=
  .object
    [("collection", .string r.collection), ("id", .string r.id),
      ("operationKind", .string r.kind.name), ("precondition", .string r.precondition.name),
      ("fields", r.fields.toJson)]

def decode? (room : Nat) (j : Json) : Option AuditRecord :=
  match Json.record? ["collection", "id", "operationKind", "precondition", "fields"] j with
  | some [some (.string collection), some (.string id), some kind, some precondition,
      some fields] =>
      match kind.plainVariant?.bind OperationKind.ofName?,
        precondition.plainVariant?.bind Precondition.ofName?, Update.decode? (room - 1) fields with
      | some kind, some precondition, some fields =>
          some ⟨collection, id, kind, precondition, fields⟩
      | _, _, _ => none
  | _ => none

def parse? (text : String) : Option AuditRecord :=
  (Json.parse? text).bind (decode? Json.room)

def jsonText (r : AuditRecord) : String :=
  r.toJson.compact

/-- Whether two records are the same; documents in them are compared as documents. -/
def same (a b : AuditRecord) : Bool :=
  a.collection == b.collection && a.id == b.id && a.kind == b.kind &&
    a.precondition == b.precondition && a.fields.set.same b.fields.set &&
    a.fields.unset == b.fields.unset

end AuditRecord

end FleetUpgrade
