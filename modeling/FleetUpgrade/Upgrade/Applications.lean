import FleetUpgrade.Plan.DocId
import FleetUpgrade.Plan.Step
import FleetUpgrade.Upgrade.Names
import FleetUpgrade.Upgrade.ServiceTag

/-!
# Services become applications

The documents of services move to the applications, their storage constraints get ids with the
charm in them, and charms, applications and storage constraints get reference counts. Leases,
status history and sequences that speak of services are changed to speak of applications, and the
collections that are no longer used are dropped.
-/

namespace FleetUpgrade

open CollectionName (services applications storageConstraints refcounts leases statusesHistory
  sequence settingsRefs legacyIpAddresses)

/-- A service as it moves to the applications. -/
structure ServiceMove where
  modelUuid : String
  application : String
  charmUrl : String
  unitCount : Int64
  /-- the move of the service and of its storage constraints -/
  transaction : Transaction

namespace ServiceMove

def constraintsId (modelUuid application charmUrl : String) : String :=
  modelUuid ++ ":asc#" ++ application ++ "#" ++ charmUrl

def ofDocument (view : StoreView) (d : Document) : Except StepError ServiceMove := do
  let id ← scannedId services d
  match DocId.split? id with
  | none => .error (.unexpected services id .unscopedId)
  | some (modelUuid, application) =>
      let charmUrl ← inDocument services id (d.getString "charmurl")
      let unitCount ← inDocument services id (d.getInt "unitcount")
      let oldConstraints := modelUuid ++ ":s#" ++ application
      let constraints ← view.fetch storageConstraints oldConstraints
      return ⟨modelUuid, application, charmUrl, unitCount,
        relocate services id applications id (d.withoutBookkeeping.remove "ownertag") ++
          relocate storageConstraints oldConstraints storageConstraints
            (constraintsId modelUuid application charmUrl) constraints.withoutBookkeeping⟩

/-- The ids of what the application refers to. -/
def references (move : ServiceMove) : List String :=
  [move.modelUuid ++ ":c#" ++ move.charmUrl,
    move.modelUuid ++ ":a#" ++ move.application ++ "#" ++ move.charmUrl,
    constraintsId move.modelUuid move.application move.charmUrl]

def count (counts : Table Int64) (move : ServiceMove) : Table Int64 :=
  move.references.foldl
    (fun counts key => counts.insert key ((counts.get? key).getD 0 + (1 + move.unitCount))) counts

def countOperation (key : String) (n : Int64) : Operation :=
  let modelUuid := ((DocId.split? key).map Prod.fst).getD ""
  .insert refcounts key (.ofList [("model-uuid", .string modelUuid), ("refcount", .int n)])

/-- The operations of all moves, followed by the reference counts in the order of their ids. -/
def plan (moves : List ServiceMove) : Transaction :=
  (moves.map transaction).flatten ++
    (moves.foldl count Table.empty).entries.map fun entry => countOperation entry.1 entry.2

end ServiceMove

def servicesToApplications : Step :=
  .ofTransaction "services-to-applications"
    "Moving documents from services collection to applications" fun view =>
      (view.readEach services (ServiceMove.ofDocument view)).map ServiceMove.plan

namespace Lease

def serviceLeadership : String := "service-leadership"

def applicationLeadership : String := "application-leadership"

/-- The id of a lease of the new namespace; an empty name is left out. -/
def newId (modelUuid kind : String) (name : Option String) : String :=
  modelUuid ++ ":" ++ kind ++ "#" ++ applicationLeadership ++ "#" ++
    match name with
    | none => ""
    | some name => if name = "" then "" else name ++ "#"

def move (d : Document) : Except StepError Transaction := do
  let oldId ← scannedId leases d
  let scope ← inDocument leases oldId (d.getString? "namespace")
  if scope = some applicationLeadership then .error (.unexpected leases oldId .leaseAlreadyMoved)
  else if scope = some serviceLeadership then
    let modelUuid ← inDocument leases oldId (d.getString "model-uuid")
    let kind ← inDocument leases oldId (d.getString "type")
    let name ← inDocument leases oldId (d.getString? "name")
    return relocate leases oldId leases (newId modelUuid kind name)
      (d.withoutBookkeeping.replace "namespace" applicationLeadership)
  else return []

def step : Step :=
  .ofTransaction "leases" "Updating leases" fun view => view.planEach leases move

end Lease

namespace StatusHistory

def editFor (d : Document) : Except StepError Transaction := do
  let id ← scannedId statusesHistory d
  let key ← inDocument statusesHistory id (d.getString "globalkey")
  match Text.stripLead "s#" key with
  | none => return []
  | some rest =>
      let u := Update.empty.setting "globalkey" (.string ("a#" ++ rest))
      return [.update statusesHistory id u]

/-- Point the status history of services at applications; the ids of its entries stay. -/
def step : Step :=
  .ofTransaction "statuses-history" "Updating status history" fun view =>
    view.planEach statusesHistory editFor

end StatusHistory

namespace Sequence

def move (d : Document) : Except StepError Transaction := do
  let oldId ← scannedId sequence d
  let tag ← inDocument sequence oldId (d.getString "name")
  match ServiceTag.name? tag with
  | none => return []
  | some service =>
      let modelUuid ← inDocument sequence oldId (d.getString "model-uuid")
      let newTag := "application-" ++ service
      return relocate sequence oldId sequence (modelUuid ++ ":" ++ newTag)
        (d.withoutBookkeeping.replace "name" newTag)

def step : Step :=
  .ofTransaction "sequences" "Updating sequences" fun view => view.planEach sequence move

end Sequence

def dropLegacyCollections : Step :=
  ⟨"drop-legacy-collections", "Dropping legacy collections", fun _ _ vars =>
    .ok (⟨[], [services, settingsRefs, legacyIpAddresses], []⟩, vars)⟩

end FleetUpgrade
