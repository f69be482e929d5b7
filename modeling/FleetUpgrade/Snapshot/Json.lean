import FleetUpgrade.Snapshot.Basic
import FleetUpgrade.Operation.Json

/-!
# Snapshots as JSON

A snapshot is a record of its collections and its journal. An empty journal is not written, and
one that is left out is empty. A snapshot's file holds the indented form.
-/

namespace FleetUpgrade.Snapshot

def collectionToJson (c : Collection) : Json :=
  .object (c.entries.map fun entry => (entry.1, entry.2.toJson))

def toJson (s : Snapshot) : Json :=
  let collections :=
    Json.object (s.collections.entries.map fun entry => (entry.1, collectionToJson entry.2))
  .object
    (("collections", collections) ::
      if s.pending = [] then [] else [("pending", .array (s.pending.map Transaction.toJson))])

/-- Decode the entries of a table; of repeated names the last counts. -/
def decodeTable? {α : Type} (decode : Json → Option α) : Json → Option (Table α)
  | .object fields =>
      (fields.mapM fun field => (decode field.2).map fun value => (field.1, value)).map Table.ofList
  | _ => none

/-- Decode a journal within the room left; one that is left out is empty. -/
def decodePending? (room : Nat) : Option Json → Option (List Transaction)
  | none => some []
  | some (.array items) => items.mapM (Transaction.decode? (room - 1))
  | some _ => none

def decode? (room : Nat) (j : Json) : Option Snapshot :=
  match Json.record? ["collections", "pending"] j with
  | some [some collections, pending] =>
      match decodeTable? (decodeTable? (Document.decode? (room - 3))) collections,
        decodePending? (room - 1) pending with
      | some collections, some pending => some ⟨collections, pending⟩
      | _, _ => none
  | _ => none

def parse? (text : String) : Option Snapshot :=
  (Json.parse? text).bind (decode? Json.room)

def fileText (s : Snapshot) : String :=
  s.toJson.indented

end FleetUpgrade.Snapshot
