import FleetUpgrade.Remote.Result
import FleetUpgrade.Store.Basic
import FleetUpgrade.Upgrade.Names

/-!
# Inventory

The models of a controller and their machines, as its store has them. The machine of the
controller itself is machine 0 of the controller's model.
-/

namespace FleetUpgrade

open CollectionName (controllers machines)

inductive InventoryError where
  | store (cause : StoreError)
  | field (collection id : String) (cause : FieldError)
  | noControllerMachine
  | missingControllerUuid
  deriving DecidableEq

def InventoryError.message : InventoryError → String
  | .store cause => cause.message
  | .field collection id cause => collection ++ " " ++ Text.quoted id ++ ": " ++ cause.message
  | .noControllerMachine => "couldn't find controller machine"
  | .missingControllerUuid => "missing controller UUID, has upgrade-db been run?"

structure FleetMachine where
  modelUuid : String
  machineId : String
  /-- the preferred public address, empty if there is none -/
  address : String
  deriving DecidableEq

/-- The target of a machine, labelled by its model and its id. -/
def FleetMachine.target (m : FleetMachine) : RemoteTarget :=
  ⟨m.address, [m.modelUuid, m.machineId]⟩

structure FleetModel where
  name : String
  uuid : String
  /-- whether it is the controller's own model -/
  controller : Bool
  machines : List FleetMachine
  deriving DecidableEq

/-- All models in the order of their ids. -/
structure Inventory where
  models : List FleetModel
  deriving DecidableEq

namespace Inventory

/-- A field of a document, which is named by its id or a question mark. -/
def inEntry {α : Type} (collection : String) (d : Document) (result : Except FieldError α) :
    Except InventoryError α :=
  result.mapError fun cause =>
    .field collection (match d.id with | .ok id => id | .error _ => "?") cause

def documents (view : StoreView) (collection : String) : Except InventoryError (List Document) :=
  match view.scan collection .all with
  | .error e => .error (.store e)
  | .ok cursor =>
      match cursor.failure with
      | some e => .error (.store e)
      | none => .ok cursor.documents

def controllerModelUuid (view : StoreView) : Except InventoryError String := do
  let controller ← (view.find controllers "e").mapError .store
  inEntry controllers controller (controller.getString "model-uuid")

/-- The UUID of the controller, as the upgrade wrote it into the first model. -/
def controllerUuid (view : StoreView) : Except InventoryError String := do
  match ← documents view CollectionName.models with
  | [] => .error .missingControllerUuid
  | first :: _ =>
      match ← inEntry CollectionName.models first (first.getString? "controller-uuid") with
      | none => .error .missingControllerUuid
      | some uuid => if uuid = "" then .error .missingControllerUuid else .ok uuid

/-- The machine of a document, if it belongs to the model. -/
def machineOf (uuid : String) (d : Document) : Except InventoryError (List FleetMachine) := do
  let owner ← inEntry machines d (d.getString "model-uuid")
  if owner = uuid then
    let machineId ← inEntry machines d (d.getString "machineid")
    let address ← inEntry machines d (d.getString? "preferredpublicaddress.value")
    return [⟨uuid, machineId, address.getD ""⟩]
  else return []

def modelOf (controllerModel : String) (machineDocuments : List Document) (d : Document) :
    Except InventoryError FleetModel := do
  let uuid ← inEntry CollectionName.models d d.id
  let name ← inEntry CollectionName.models d (d.getString "name")
  let found ← machineDocuments.mapM (machineOf uuid)
  return ⟨name, uuid, uuid == controllerModel, found.flatten⟩

def load (view : StoreView) : Except InventoryError Inventory := do
  let controllerModel ← controllerModelUuid view
  let machineDocuments ← documents view machines
  let modelDocuments ← documents view CollectionName.models
  let found ← modelDocuments.mapM (modelOf controllerModel machineDocuments)
  return ⟨found⟩

def allMachines (inventory : Inventory) : List FleetMachine :=
  inventory.models.flatMap FleetModel.machines

/-- Whether a machine of a model is the controller's own. -/
def isServer (model : FleetModel) (m : FleetMachine) : Bool :=
  model.controller && m.machineId == "0"

def otherMachines (inventory : Inventory) : List FleetMachine :=
  inventory.models.flatMap fun model => model.machines.filter fun m => !isServer model m

def serverMachine (inventory : Inventory) : Except InventoryError FleetMachine :=
  match (inventory.models.filter FleetModel.controller).flatMap FleetModel.machines |>.find?
      fun m => m.machineId == "0" with
  | some m => .ok m
  | none => .error .noControllerMachine

end Inventory

end FleetUpgrade
