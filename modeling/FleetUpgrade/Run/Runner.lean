import FleetUpgrade.Audit.Log
import FleetUpgrade.Plan.Step
import FleetUpgrade.Run.Mode

/-!
# Making changes

A run works on a site: a store, the disk, and an audit sink. Only the calls here change it. In a
live run they do what they are asked; in a preview they leave the store and the files alone. In
both, the operations of a transaction are recorded in the order in which they are applied.
-/

namespace FleetUpgrade

/-- What a run works on. Unless told otherwise, records go to a log. -/
structure Site (σ : Type) (α : Type := AuditLog) where
  store : σ
  disk : Disk
  audit : α

inductive RunnerError where
  | store (cause : StoreError)
  /-- the audit sink refused a record -/
  | audit
  /-- a file could not be written -/
  | file (path : String)
  deriving DecidableEq

namespace RunnerError

def message : RunnerError → String
  | .store cause => cause.message
  | .audit => "writing audit record"
  | .file path => "writing " ++ path

def isPrecondition : RunnerError → Bool
  | .store cause => cause.isPrecondition
  | _ => false

end RunnerError

namespace Site

variable {σ α : Type}

/-- Carry out an action for each item in turn, up to the first failure. -/
def forEach {ι ε : Type} (act : ι → Site σ α → Except ε Unit × Site σ α) :
    List ι → Site σ α → Except ε Unit × Site σ α
  | [], site => (.ok (), site)
  | item :: items, site =>
      match act item site with
      | (.error e, site) => (.error e, site)
      | (.ok _, site) => forEach act items site

def record [AuditSink α] (op : Operation) (site : Site σ α) :
    Except RunnerError Unit × Site σ α :=
  match AuditSink.record (.ofOperation op) site.audit site.disk with
  | (true, audit, disk) => (.ok (), { site with audit := audit, disk := disk })
  | (false, audit, disk) => (.error .audit, { site with audit := audit, disk := disk })

def change (call : σ → Disk → Outcome σ) (site : Site σ α) :
    Except RunnerError Unit × Site σ α :=
  let outcome := call site.store site.disk
  (outcome.result.mapError .store, { site with store := outcome.store, disk := outcome.disk })

variable [DocumentStore σ]

/-- Apply a transaction and record its operations; an empty one is passed over. -/
def apply [AuditSink α] (mode : RunMode) (ops : Transaction) (site : Site σ α) :
    Except RunnerError Unit × Site σ α :=
  if ops.isEmpty then (.ok (), site)
  else
    match mode with
    | .preview => forEach record ops site
    | .live =>
        match site.change (DocumentStore.apply ops) with
        | (.error e, site) => (.error e, site)
        | (.ok _, site) => forEach record ops site

/-- Apply the transactions that an interrupted run left in the journal. -/
def resume (mode : RunMode) (site : Site σ α) : Except RunnerError Unit × Site σ α :=
  match mode with
  | .preview => (.ok (), site)
  | .live => site.change DocumentStore.resume

def drop (mode : RunMode) (collection : String) (site : Site σ α) :
    Except RunnerError Unit × Site σ α :=
  match mode with
  | .preview => (.ok (), site)
  | .live => site.change (DocumentStore.drop collection)

/-- Write a file with its permissions, making the directories above it. -/
def writeFile (mode : RunMode) (file : PlannedFile) (site : Site σ α) :
    Except RunnerError Unit × Site σ α :=
  match mode with
  | .preview => (.ok (), site)
  | .live =>
      match site.disk.makeParents file.path with
      | (disk, false) => (.error (.file file.path), { site with disk := disk })
      | (disk, true) =>
          match disk.write? file.path file.contents.toUTF8 with
          | none => (.error (.file file.path), { site with disk := disk })
          | some disk =>
              match disk.setMode? file.path file.mode with
              | none => (.error (.file file.path), { site with disk := disk })
              | some disk => (.ok (), { site with disk := disk })

end Site

end FleetUpgrade
