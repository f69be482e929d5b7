import FleetUpgrade.Audit.Record
import FleetUpgrade.Disk.Basic
import FleetUpgrade.Text.Search

/-!
# Audit logs

A log takes records in order. It may be bounded, and then refuses records once it is full; it may
also write every record as a line of a file. Each line holds one compact JSON tree, which has no
line feed of its own. A tee passes every record on to several sinks, up to the first that refuses
it, so the sinks before that one keep it.
-/

namespace FleetUpgrade

def AuditRecord.line (r : AuditRecord) : String :=
  r.jsonText ++ "\n"

/-- The records of a text of lines; nothing when some line is no record. -/
def AuditRecord.parseLines? (text : String) : Option (List AuditRecord) :=
  let lines := Text.segments '\n' text.toList
  if lines.getLast? = some [] then
    lines.dropLast.mapM fun line => AuditRecord.parse? (String.ofList line)
  else none

structure AuditLog where
  records : List AuditRecord
  /-- how many records it takes, if that is bounded -/
  capacity : Option Nat
  /-- the file that gets a line for each record -/
  file : Option OpenFile

namespace AuditLog

def empty : AuditLog :=
  ⟨[], none, none⟩

def isFull (log : AuditLog) : Bool :=
  match log.capacity with
  | some n => n ≤ log.records.length
  | none => false

/-- Take a record; nothing when the log refuses it. -/
def record? (r : AuditRecord) (log : AuditLog) (disk : Disk) : Option (AuditLog × Disk) :=
  if log.isFull then none
  else
    let records := log.records ++ [r]
    match log.file with
    | none => some ({ log with records := records }, disk)
    | some file =>
        let written := disk.writeTo file r.line.toUTF8
        some ({ log with records := records, file := some written.1 }, written.2)

end AuditLog

/-- What takes records: whether it took one, and what it and the disk are afterwards. -/
class AuditSink (α : Type) where
  record : AuditRecord → α → Disk → Bool × α × Disk

instance : AuditSink AuditLog where
  record r log disk :=
    match log.record? r disk with
    | some (log, disk) => (true, log, disk)
    | none => (false, log, disk)

/-- Sinks that each get every record, in order. -/
structure AuditTee (α : Type) where
  sinks : List α

namespace AuditTee

variable {α : Type} [AuditSink α]

/-- Pass a record on to sinks in order, up to the first that refuses it. -/
def recordEach (r : AuditRecord) : List α → Disk → Bool × List α × Disk
  | [], disk => (true, [], disk)
  | sink :: sinks, disk =>
      match AuditSink.record r sink disk with
      | (false, sink, disk) => (false, sink :: sinks, disk)
      | (true, sink, disk) =>
          let rest := recordEach r sinks disk
          (rest.1, sink :: rest.2.1, rest.2.2)

instance : AuditSink (AuditTee α) where
  record r tee disk :=
    let result := recordEach r tee.sinks disk
    (result.1, ⟨result.2.1⟩, result.2.2)

end AuditTee

structure LogEvent where
  target : String
  level : String
  /-- the fields by name, in increasing order of the names -/
  fields : List (String × String)

def AuditRecord.event (r : AuditRecord) : LogEvent :=
  ⟨"fleetmig::audit", "INFO",
    [("collection", r.collection), ("fields", r.fields.toJson.compact), ("id", r.id),
      ("kind", r.kind.name), ("message", "operation"), ("precondition", r.precondition.name)]⟩

end FleetUpgrade
