import FleetUpgrade.Snapshot.Json
import FleetUpgrade.Store.Basic

/-!
# Stores in a file

A store in a file keeps its snapshot in memory and in one file. A transaction is recorded in the
journal and written, then applied and written again without the record, so an interruption between
the writes leaves a journal from which the transaction can be resumed.

Every write goes to a file beside the snapshot's and is moved over it, so that the file always
holds one complete snapshot.
-/

namespace FleetUpgrade

structure FileStore where
  path : String
  snapshot : Snapshot

namespace FileStore

/-- The file that a write goes to before it is moved: one beside the snapshot's. -/
def temporaryPath (path : String) : String :=
  FilePath.withFileName path ((FilePath.fileName? path).getD "" ++ ".tmp")

/-- Write a snapshot to its file; on failure the disk may keep the file that was not moved. -/
def persist (path : String) (s : Snapshot) (disk : Disk) : Except StoreError Unit × Disk :=
  match disk.write? (temporaryPath path) s.fileText.toUTF8 with
  | none => (.error (.io (temporaryPath path)), disk)
  | some written =>
      match written.rename? (temporaryPath path) path with
      | none => (.error (.io path), written)
      | some moved => (.ok (), moved)

def openAt (path : String) (disk : Disk) : Except StoreError FileStore :=
  match disk.read? path with
  | none => .error (.io path)
  | some contents =>
      match (String.fromUTF8? contents).bind Snapshot.parse? with
      | none => .error .snapshot
      | some s => .ok ⟨path, s⟩

/-- Create the file of a snapshot, in place of one that is there. -/
def create (path : String) (s : Snapshot) (disk : Disk) : Except StoreError FileStore × Disk :=
  let result := persist path s disk
  (result.1.map fun _ => ⟨path, s⟩, result.2)

/-! ## Changing calls

Each of them is told how snapshots are written, since any write of a call may fail on its own. -/

/-- How snapshots are written: whether it was done, and the disk afterwards. -/
abbrev Writing := Snapshot → Disk → Except StoreError Unit × Disk

/-- Apply a transaction.

If the record cannot be written, the transaction is given up. Once it is written, the file is
written again whether or not the transaction could be applied, so that the record goes. -/
def applyWith (write : Writing) (ops : Transaction) (f : FileStore) (disk : Disk) :
    Outcome FileStore :=
  match write (f.snapshot.stage ops) disk with
  | (.error e, disk) => ⟨.error e, f, disk⟩
  | (.ok _, disk) =>
      match f.snapshot.apply ops with
      | .error refused =>
          match write f.snapshot disk with
          | (.error e, disk) => ⟨.error e, f, disk⟩
          | (.ok _, disk) => ⟨.error refused, f, disk⟩
      | .ok s =>
          match write s disk with
          | (.error e, disk) => ⟨.error e, { f with snapshot := s }, disk⟩
          | (.ok _, disk) => ⟨.ok (), { f with snapshot := s }, disk⟩

/-- Apply the journal and write what it leaves; an empty journal writes nothing. -/
def resumeWith (write : Writing) (f : FileStore) (disk : Disk) : Outcome FileStore :=
  if f.snapshot.pending = [] then ⟨.ok (), f, disk⟩
  else
    let result := f.snapshot.resume
    match write result.2 disk with
    | (.error e, disk) => ⟨.error e, { f with snapshot := result.2 }, disk⟩
    | (.ok _, disk) => ⟨result.1.map fun _ => (), { f with snapshot := result.2 }, disk⟩

/-- Take a collection out; a collection that is not there writes nothing. -/
def dropWith (write : Writing) (name : String) (f : FileStore) (disk : Disk) :
    Outcome FileStore :=
  if f.snapshot.collections.contains name then
    let s := f.snapshot.dropCollection name
    let result := write s disk
    ⟨result.1, { f with snapshot := s }, result.2⟩
  else ⟨.ok (), f, disk⟩

/-- Record a transaction as pending and write the journal. -/
def stageWith (write : Writing) (ops : Transaction) (f : FileStore) (disk : Disk) :
    Outcome FileStore :=
  let s := f.snapshot.stage ops
  let result := write s disk
  ⟨result.1, { f with snapshot := s }, result.2⟩

def apply (ops : Transaction) (f : FileStore) (disk : Disk) : Outcome FileStore :=
  applyWith (persist f.path) ops f disk

def resume (f : FileStore) (disk : Disk) : Outcome FileStore :=
  resumeWith (persist f.path) f disk

def drop (name : String) (f : FileStore) (disk : Disk) : Outcome FileStore :=
  dropWith (persist f.path) name f disk

def stage (ops : Transaction) (f : FileStore) (disk : Disk) : Outcome FileStore :=
  stageWith (persist f.path) ops f disk

instance : DocumentStore FileStore where
  names f := f.snapshot.collections.keys
  scan f := f.snapshot.scan
  find f := f.snapshot.find
  count f := f.snapshot.count
  apply := apply
  resume := resume
  drop := drop

end FileStore

end FleetUpgrade
