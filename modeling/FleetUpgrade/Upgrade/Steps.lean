import FleetUpgrade.Plan.Rekey
import FleetUpgrade.Plan.FieldEdit
import FleetUpgrade.Upgrade.Applications
import FleetUpgrade.Upgrade.Controller
import FleetUpgrade.Upgrade.Schema
import FleetUpgrade.Upgrade.Tools

/-!
# The steps of the upgrade

The order matters: later steps read what earlier ones write, and the controller step finds the
cloud and the credential that every model needs.
-/

namespace FleetUpgrade

open CollectionName (assignUnits migrations legacyIpAddresses storageInstances units
  modelEntityRefs relations resources annotations constraints endpointBindings settings statuses
  users modelUsers spaces subnets linkLayerDevices ipAddresses machines)

structure UpgradeOptions where
  /-- the version of the agents, for the models' settings -/
  agentVersion : String
  /-- the version of the tools, for machines and units -/
  toolsVersion : String
  /-- the archive to register, if there is one -/
  toolsFile : Option String
  /-- the directory that gets the credential files -/
  certDirectory : String

def UpgradeOptions.standard : UpgradeOptions :=
  ⟨"2.0.0", "2.0.0-xenial-amd64", none, "/etc/juju"⟩

/-- Collections that must be empty before the upgrade: pending work, and what is not migrated. -/
def upgradePrecheck : List String :=
  [assignUnits, CollectionName.cleanups, migrations, legacyIpAddresses, storageInstances]

/-- The rule that takes global keys from services to applications. -/
def serviceKeyRule (keyField : Option String) : RekeyRule :=
  ⟨"s#", "a#", keyField, ["env-uuid"]⟩

/-- The steps that need no archive. -/
def storeSteps (options : UpgradeOptions) : List Step :=
  [updateController options.certDirectory,
    updateModels options.agentVersion,
    servicesToApplications,
    (FieldEdit.ofCollection "units" units
      [.rename "service" "application", .unset "ports", .unset "privateaddress",
        .unset "publicaddress"]).step,
    Lease.step,
    (FieldEdit.ofCollection "model-entity-refs" modelEntityRefs
      [.rename "services" "applications"]).step,
    (FieldEdit.ofCollection "relations" relations
      [.renameEach "endpoints" "servicename" "applicationname"]).step,
    (FieldEdit.ofCollection "resources" resources
      [.rename "service-id" "application-id", .unset "env-uuid"]).step,
    (serviceKeyRule (some "globalkey")).step annotations,
    (serviceKeyRule none).step constraints,
    (serviceKeyRule none).step endpointBindings,
    (serviceKeyRule none).step settings,
    (serviceKeyRule none).step statuses,
    StatusHistory.step,
    Sequence.step,
    dropLegacyCollections,
    (FieldEdit.ofCollection "users" users [.unset "deactivated"]).step,
    (FieldEdit.ofCollection "model-users" modelUsers
      [.copy "model-uuid" "object-uuid", .unset "access"]).step,
    MachineContainers.step,
    ImageMetadata.step,
    ProviderIds.step spaces "space",
    ProviderIds.step subnets "subnet",
    ProviderIds.step linkLayerDevices "linklayerdevice",
    ProviderIds.step ipAddresses "address",
    (FieldEdit.mk "agent-tools" "Updating tools field on units and machines"
      [machines, units] [.set "tools.version" options.toolsVersion]).step]

def upgradeSteps (options : UpgradeOptions) : List Step :=
  storeSteps options ++
    match options.toolsFile with
    | some path => [registerTools path options.toolsVersion]
    | none => []

def cleanupSteps : List Step :=
  [Cleanups.step]

end FleetUpgrade
