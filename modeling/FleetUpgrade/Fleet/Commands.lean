import FleetUpgrade.Fleet.Scripts
import FleetUpgrade.Fleet.Session

/-!
# The commands

What an operator can do with a controller's store and with the machines.
-/

namespace FleetUpgrade.Command

variable {σ : Type} [DocumentStore σ]

/-- Show the controller's machine and the machines of every model. -/
def verifyStore : Command σ Inventory := do
  let found ← inventory
  let server ← ofInventory found.serverMachine
  printLine "Server Machine:"
  printLine
    ("  " ++ server.modelUuid ++ ", " ++ server.machineId ++ ", " ++ server.address ++ "\n")
  printLine "Models and Machines:"
  for model in found.models do
    printLine (model.name ++ " (" ++ model.uuid ++ ")")
    for machine in model.machines do
      printLine ("  " ++ machine.machineId ++ ": " ++ machine.address)
  return found

/-- Remove the pending cleanups: how many there were. -/
def cleanStore (uuid : String) : Command σ Nat := do
  printLine "Cleaning cleanups"
  let summary ← migrate Migration.cleanup uuid
  let removed := summary.totalOperations
  printLine (toString removed ++
    if summary.mode.isLive then " cleanup docs removed." else " cleanup docs would be removed.")
  return removed

def upgradeOptions (config : FleetConfig) (tools : String) : UpgradeOptions :=
  ⟨config.agentVersion, config.toolsVersion, some tools, config.certDirectory⟩

/-- Upgrade the store; the controller gets the given UUID. -/
def upgradeStore (uuid tools : String) : Command σ MigrationSummary := do
  printLine ("Generated new controller UUID: " ++ uuid)
  let config := (← get).config
  let summary ← migrate (Migration.upgrade (upgradeOptions config tools)) uuid
  printLine summary.text
  return summary

def machinesOf (action : AgentAction) (found : Inventory) :
    Except InventoryError (List FleetMachine) :=
  match action with
  | .status => .ok found.allMachines
  | .stop => .ok found.allMachines
  | .startController => found.serverMachine.map fun m => [m]
  | .startOthers => .ok found.otherMachines

def agentAction (argument : Option String) : Except UsageError AgentAction :=
  match argument with
  | none => .error .missingAction
  | some name =>
      match AgentAction.ofName? name with
      | some action => .ok action
      | none => .error (.unknownAction name)

def agents (action : AgentAction) : Command σ Unit := do
  let session ← get
  let machines ← ofInventory (machinesOf action (← inventory))
  dispatch ((Script.services session.config.agentsDirectory action).job session.context) machines

/-- Install this program, which is in the given file, on all machines but the controller's. -/
def distribute (binary : String) : Command σ Unit := do
  let session ← get
  let machines := (← inventory).otherMachines
  let upload := Upload.keepName binary
  let script := Script.installBinary session.config upload.remoteName
  dispatch (script.jobWithUpload session.context upload) machines

def upgradeAgentsJob (config : FleetConfig) (context : RunContext) (tools controllerUuid : String) :
    RemoteJob :=
  let upload := Upload.mk tools ("juju-" ++ config.toolsVersion ++ ".tgz")
  let archive := config.remoteHome ++ "/" ++ upload.remoteName
  (Script.upgradeAgents config archive ("controller-" ++ controllerUuid)).jobWithUpload context
    upload

/-- The machines that have one of the addresses; without addresses, all of them. -/
def withAddress (addresses : List String) (machines : List FleetMachine) : List FleetMachine :=
  if addresses.isEmpty then machines else machines.filter fun m => addresses.contains m.address

def upgradeAgents (tools : String) (addresses : List String) : Command σ Unit := do
  let session ← get
  let uuid ← ofInventory (Inventory.controllerUuid (← view))
  let machines := withAddress addresses (← inventory).allMachines
  dispatch (upgradeAgentsJob session.config session.context tools uuid) machines

end FleetUpgrade.Command
