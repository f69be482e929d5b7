import FleetUpgrade.Fleet.Config
import FleetUpgrade.Fleet.Inventory
import FleetUpgrade.Remote.Dispatch
import FleetUpgrade.Remote.Report
import FleetUpgrade.Run.Migration

/-!
# Sessions

A command works in a session: a configuration, the site of the store, the way to the machines, and
the output for the operator. A command that fails keeps what it did before.
-/

namespace FleetUpgrade

/-- Text for the operator, with the number of bytes that fit, if that is bounded. -/
structure Output where
  text : String
  limit : Option Nat

namespace Output

def empty : Output :=
  ⟨"", none⟩

/-- Write a text, unless it does not fit. -/
def write? (out : Output) (text : String) : Option Output :=
  let written := out.text ++ text
  match out.limit with
  | some n => if written.utf8ByteSize ≤ n then some { out with text := written } else none
  | none => some { out with text := written }

end Output

inductive UsageError where
  | missingAction
  | unknownAction (name : String)
  deriving DecidableEq

def UsageError.message : UsageError → String
  | .missingAction => "missing action: [status, stop, start-controller, start-others]"
  | .unknownAction name => "unknown action: " ++ Text.quoted name

inductive CommandError where
  | usage (cause : UsageError)
  | config (cause : ConfigError)
  | store (cause : StoreError)
  | inventory (cause : InventoryError)
  | migration (cause : MigrationError)
  /-- some machines had a problem -/
  | targetsFailed (count : Nat)
  | output
  deriving DecidableEq

def CommandError.message : CommandError → String
  | .usage cause => cause.message
  | .config cause => cause.message
  | .store cause => cause.message
  | .inventory cause => cause.message
  | .migration cause => cause.message
  | .targetsFailed _ => Report.problemMessage
  | .output => "writing output"

structure Session (σ : Type) where
  config : FleetConfig
  context : RunContext
  dispatcher : Dispatcher
  site : Site σ
  output : Output
  /-- what was asked of the transport -/
  calls : List TransportCall

/-- A command that gives an `α` unless it fails. -/
abbrev Command (σ α : Type) := ExceptT CommandError (StateM (Session σ)) α

namespace Command

variable {σ α : Type}

def print (text : String) : Command σ Unit := do
  let session ← get
  match session.output.write? text with
  | some output => set { session with output := output }
  | none => throw .output

def printLine (text : String) : Command σ Unit := do
  print text
  print "\n"

def ofInventory (result : Except InventoryError α) : Command σ α :=
  match result with
  | .ok a => pure a
  | .error e => throw (.inventory e)

variable [DocumentStore σ]

def view : Command σ StoreView := do
  return DocumentStore.view (← get).site.store

def inventory : Command σ Inventory := do
  ofInventory (Inventory.load (← view))

def migrate (m : Migration) (uuid : String) : Command σ MigrationSummary := do
  let session ← get
  let mode := session.context.mode
  let outcome := m.run mode (.ofUuid uuid) session.site
  set { session with site := outcome.site }
  match outcome.result with
  | .ok steps => return ⟨mode, steps⟩
  | .error e => throw (.migration e)

/-- Send a job to machines, report the results, and fail if there was a problem. -/
def dispatch (job : RemoteJob) (machines : List FleetMachine) : Command σ Unit := do
  let session ← get
  let targets := machines.map FleetMachine.target
  set { session with calls := session.calls ++ session.dispatcher.calls job targets }
  let report := Report.mk (session.dispatcher.dispatch job targets)
  print report.text
  match report.check with
  | .ok _ => return ()
  | .error count => throw (.targetsFailed count)

end Command

end FleetUpgrade
