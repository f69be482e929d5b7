import FleetUpgrade.Operation.Basic
import FleetUpgrade.Document.Json
import FleetUpgrade.Json.Record

/-!
# Operations as JSON

An operation is a record of collection, id, demand and change; the demand may be left out, and
then nothing is demanded. A change is a variant: an insertion holds the document, an update is a
record of what it sets and clears, a removal holds nothing.
-/

namespace FleetUpgrade

def Update.toJson (u : Update) : Json :=
  .object [("set", u.set.toJson), ("unset", .array (u.unset.map .string))]

def Update.decode? (room : Nat) (j : Json) : Option Update :=
  match Json.record? ["set", "unset"] j with
  | some [some set, some unset] =>
      match Document.decode? (room - 1) set, unset.strings? with
      | some set, some unset => some ⟨set, unset⟩
      | _, _ => none
  | _ => none

def Change.toJson : Change → Json
  | .insert body => .object [("insert", body.toJson)]
  | .update changes => .object [("update", changes.toJson)]
  | .remove => .string "remove"

def Change.decode? (room : Nat) (j : Json) : Option Change :=
  match j.variant? with
  | some ("insert", some body) => (Document.decode? (room - 1) body).map .insert
  | some ("update", some changes) => (Update.decode? (room - 1) changes).map .update
  | some ("remove", none) => some .remove
  | some ("remove", some .null) => some .remove
  | _ => none

namespace Operation

def toJson (op : Operation) : Json :=
  .object
    [("collection", .string op.collection), ("id", .string op.id),
      ("precondition", .string op.precondition.name), ("change", op.change.toJson)]

/-- Decode a demand; one that is left out is none. -/
def decodePrecondition? : Option Json → Option Precondition
  | none => some .none
  | some j => j.plainVariant?.bind Precondition.ofName?

def decode? (room : Nat) (j : Json) : Option Operation :=
  match Json.record? ["collection", "id", "precondition", "change"] j with
  | some [some (.string collection), some (.string id), precondition, some change] =>
      match decodePrecondition? precondition, Change.decode? (room - 1) change with
      | some precondition, some change => some ⟨collection, id, precondition, change⟩
      | _, _ => none
  | _ => none

def parse? (text : String) : Option Operation :=
  (Json.parse? text).bind (decode? Json.room)

def jsonText (op : Operation) : String :=
  op.toJson.compact

end Operation

namespace Transaction

def toJson (ops : Transaction) : Json :=
  .array (ops.map Operation.toJson)

def decode? (room : Nat) : Json → Option Transaction
  | .array items => items.mapM (Operation.decode? (room - 1))
  | _ => none

end Transaction

end FleetUpgrade
