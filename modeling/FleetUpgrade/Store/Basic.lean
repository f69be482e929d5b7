import FleetUpgrade.Disk.Basic
import FleetUpgrade.Snapshot.Basic

/-!
# Document stores

A store is read through cursors, look-ups and counts, and changed by transactions, by resuming its
journal, and by dropping collections. A changing call sees the disk on which a store may keep its
file, and gives back the store and the disk as it leaves them.

`StoreView` is what a reader may do with a store: planning sees nothing else.
-/

namespace FleetUpgrade

/-- Documents read from a collection, and the failure after the last of them, if there is one. -/
structure Cursor where
  documents : List Document
  failure : Option StoreError

structure Outcome (σ : Type) where
  result : Except StoreError Unit
  store : σ
  disk : Disk

class DocumentStore (σ : Type) where
  /-- the names of all collections, in order -/
  names : σ → List String
  /-- the documents of a collection that a query accepts, in the order of their ids -/
  scan : σ → String → Query → Except StoreError Cursor
  find : σ → String → String → Except StoreError Document
  count : σ → String → Except StoreError Nat
  /-- apply a transaction, as a whole or not at all -/
  apply : Transaction → σ → Disk → Outcome σ
  /-- apply the transactions of the journal -/
  resume : σ → Disk → Outcome σ
  /-- take a collection out; one that is not there is fine -/
  drop : String → σ → Disk → Outcome σ

/-- The reading calls of a store. -/
structure StoreView where
  scan : String → Query → Except StoreError Cursor
  find : String → String → Except StoreError Document
  count : String → Except StoreError Nat

def DocumentStore.view {σ : Type} [DocumentStore σ] (store : σ) : StoreView :=
  ⟨DocumentStore.scan store, DocumentStore.find store, DocumentStore.count store⟩

namespace Snapshot

def scan (s : Snapshot) (collection : String) (q : Query) : Except StoreError Cursor :=
  .ok ⟨s.select collection q, none⟩

def find (s : Snapshot) (collection id : String) : Except StoreError Document :=
  match s.find? collection id with
  | some d => .ok d
  | none => .error (.notFound collection id)

def count (s : Snapshot) (collection : String) : Except StoreError Nat :=
  .ok (s.collections.collection collection).size

end Snapshot

end FleetUpgrade
