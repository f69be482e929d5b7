import FleetUpgrade.Store.Basic

/-!
# Stores that fail on purpose

A faulty store passes its calls on to another store, except that reading chosen collections,
applying transactions, or a cursor in the middle of a collection fails.
-/

namespace FleetUpgrade

structure Faults where
  /-- collections that cannot be read at all -/
  unreadable : List String
  /-- whether every transaction fails -/
  applyFails : Bool
  /-- a collection, and the number of documents its cursor yields before it fails -/
  cursor : Option (String × Nat)

def Faults.none : Faults :=
  ⟨[], false, Option.none⟩

/-- A store behind faults. `applyCalls` counts the transactions tried, failed ones too. -/
structure FaultyStore (σ : Type) where
  inner : σ
  faults : Faults
  applyCalls : Nat

namespace FaultyStore

variable {σ : Type}

/-- A reading call, which fails on an unreadable collection. -/
def guarded {α : Type} (f : FaultyStore σ) (collection : String)
    (call : Except StoreError α) : Except StoreError α :=
  if f.faults.unreadable.contains collection then
    .error (.read collection "injected cursor failure")
  else call

def interrupted (f : FaultyStore σ) (collection : String) (cursor : Cursor) : Cursor :=
  match f.faults.cursor with
  | some (name, n) =>
      if name = collection then ⟨cursor.documents.take n, some (.read collection "cursor lost")⟩
      else cursor
  | none => cursor

def passed (f : FaultyStore σ) (o : Outcome σ) : Outcome (FaultyStore σ) :=
  ⟨o.result, { f with inner := o.store }, o.disk⟩

instance [DocumentStore σ] : DocumentStore (FaultyStore σ) where
  names f := DocumentStore.names f.inner
  scan f collection q :=
    f.guarded collection ((DocumentStore.scan f.inner collection q).map (f.interrupted collection))
  find f collection id := f.guarded collection (DocumentStore.find f.inner collection id)
  count f collection := f.guarded collection (DocumentStore.count f.inner collection)
  apply ops f disk :=
    let tried := { f with applyCalls := f.applyCalls + 1 }
    if f.faults.applyFails then ⟨.error (.unavailable "injected apply failure"), tried, disk⟩
    else tried.passed (DocumentStore.apply ops f.inner disk)
  resume f disk := f.passed (DocumentStore.resume f.inner disk)
  drop name f disk := f.passed (DocumentStore.drop name f.inner disk)

end FaultyStore

end FleetUpgrade
