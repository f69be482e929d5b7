import FleetUpgrade.Store.Error
import FleetUpgrade.Store.Query
import FleetUpgrade.Table

/-!
# Snapshots

A snapshot is everything a store holds: the collections, each a table from ids to documents, and
the journal of transactions that were recorded but not applied.

`applyTo` applies a transaction to the collections: every collection that is named is worked on as
a copy, and the copies replace the collections only when all operations succeeded. A collection
that was not there comes into being only if it holds a document in the end.
-/

namespace FleetUpgrade

/-- Documents by id. -/
abbrev Collection := Table Document

/-- Collections by name. -/
abbrev Collections := Table Collection

structure Snapshot where
  collections : Collections
  pending : List Transaction

/-- The document an insertion puts: the operation's id first, then the body without its own id. -/
def Document.inserted (id : String) (body : Document) : Document :=
  ⟨(Document.withId id).fields ++ Fields.erase Document.idField body.fields⟩

namespace Update

/-- Set the values of an update in order, up to the first refusal. -/
def applySets : Fields → Document → Except Refusal Document
  | [], d => .ok d
  | (path, value) :: rest, d =>
      if path = Document.idField then .error .immutableId
      else
        match d.setPath path value with
        | (_, some e) => .error (.field e)
        | (d', none) => applySets rest d'

/-- Clear the places of an update in order, up to the first refusal. -/
def applyUnsets : List String → Document → Except Refusal Document
  | [], d => .ok d
  | path :: rest, d =>
      if path = Document.idField then .error .immutableId else applyUnsets rest (d.unsetPath path)

def applyTo (u : Update) (d : Document) : Except Refusal Document :=
  match applySets u.set.fields d with
  | .error e => .error e
  | .ok d' => applyUnsets u.unset d'

end Update

namespace Operation

/-- Carry an operation out on its collection.

Once the demand is met, inserting a document that is there, and updating or removing one that is
not, changes nothing. -/
def applyTo (op : Operation) (c : Collection) : Except StoreError Collection :=
  let present := c.get? op.id
  if op.precondition.holds present.isSome then
    match op.change, present with
    | .insert _, some _ => .ok c
    | .insert body, none => .ok (c.insert op.id (Document.inserted op.id body))
    | .update _, none => .ok c
    | .update changes, some d =>
        match changes.applyTo d with
        | .ok d' => .ok (c.insert op.id d')
        | .error cause => .error (.invalidOperation op.collection op.id cause)
    | .remove, _ => .ok (c.erase op.id)
  else .error (.preconditionFailed op.collection op.id op.precondition)

end Operation

namespace Collections

/-- The documents of a collection; one that is not there has none. -/
def collection (cs : Collections) (name : String) : Collection :=
  (cs.get? name).getD Table.empty

def find? (cs : Collections) (name id : String) : Option Document :=
  (cs.collection name).get? id

end Collections

namespace Transaction

/-- Copies of the collections that a transaction names. -/
def workingCopy (ops : Transaction) (cs : Collections) : Collections :=
  ops.foldl (fun work op => work.insert op.collection (cs.collection op.collection)) Table.empty

/-- Carry operations out in order on working copies, up to the first error. -/
def runOn : Transaction → Collections → Except StoreError Collections
  | [], work => .ok work
  | op :: ops, work =>
      match op.applyTo (work.collection op.collection) with
      | .error e => .error e
      | .ok c => runOn ops (work.insert op.collection c)

/-- Put working copies in place; an empty copy does not bring a collection into being. -/
def commit (work : List (String × Collection)) (cs : Collections) : Collections :=
  work.foldl
    (fun cs entry =>
      if entry.2.isEmpty && !cs.contains entry.1 then cs else cs.insert entry.1 entry.2)
    cs

def applyTo (ops : Transaction) (cs : Collections) : Except StoreError Collections :=
  match runOn ops (workingCopy ops cs) with
  | .error e => .error e
  | .ok work => .ok (commit work.entries cs)

end Transaction

namespace Snapshot

def empty : Snapshot :=
  ⟨Table.empty, []⟩

instance : Inhabited Snapshot :=
  ⟨empty⟩

/-- Store a document under its id, outside of any transaction. -/
def put (s : Snapshot) (collection : String) (d : Document) : Except StoreError Snapshot :=
  match d.id with
  | .error e => .error (.invalidOperation collection "" (.field e))
  | .ok id =>
      .ok { s with
        collections :=
          s.collections.insert collection ((s.collections.collection collection).insert id d) }

def find? (s : Snapshot) (collection id : String) : Option Document :=
  s.collections.find? collection id

def documents (s : Snapshot) (collection : String) : List Document :=
  (s.collections.collection collection).values

/-- The documents of a collection that a query accepts, in the order of their ids. -/
def select (s : Snapshot) (collection : String) (q : Query) : List Document :=
  (s.documents collection).filter q.accepts

/-- Apply a transaction, as a whole or not at all. The journal stays as it is. -/
def apply (s : Snapshot) (ops : Transaction) : Except StoreError Snapshot :=
  match ops.applyTo s.collections with
  | .error e => .error e
  | .ok cs => .ok { s with collections := cs }

/-- Apply the transactions of a journal in order: how many were applied, or the first error, and
the snapshot with the transactions that are left. -/
def resumeFrom (cs : Collections) : List Transaction → Except StoreError Nat × Snapshot
  | [] => (.ok 0, ⟨cs, []⟩)
  | ops :: rest =>
      match ops.applyTo cs with
      | .error e => (.error e, ⟨cs, ops :: rest⟩)
      | .ok cs' =>
          let result := resumeFrom cs' rest
          (result.1.map (· + 1), result.2)

/-- Apply the journal up to its first failing transaction, which stays at its head. -/
def resume (s : Snapshot) : Except StoreError Nat × Snapshot :=
  resumeFrom s.collections s.pending

/-- Record a transaction without applying it. -/
def stage (s : Snapshot) (ops : Transaction) : Snapshot :=
  { s with pending := s.pending ++ [ops] }

def dropCollection (s : Snapshot) (name : String) : Snapshot :=
  { s with collections := s.collections.erase name }

def documentCount (s : Snapshot) : Nat :=
  s.collections.values.foldl (fun total documents => total + documents.size) 0

end Snapshot

end FleetUpgrade
