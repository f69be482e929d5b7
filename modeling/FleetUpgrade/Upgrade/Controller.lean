import FleetUpgrade.Plan.Cloud
import FleetUpgrade.Upgrade.Names

/-!
# Upgrading the controller and its models

The controller gets a cloud, a credential, settings of its own, and an administrator. What was
found on the way is left in the variables, and every model is then pointed at the new cloud,
credential and controller.
-/

namespace FleetUpgrade

open CollectionName (controllers models settings clouds cloudCredentials permissions
  controllerUsers userModelName)

/-- A character of a settings key as it is stored: points and dollars take their full-width
forms. -/
def escapedChar (c : Char) : Char :=
  if c = '.' then Char.ofNat 0xff0e else if c = '$' then Char.ofNat 0xff04 else c

def escapeKey (key : String) : String :=
  String.ofList (key.toList.map escapedChar)

def Document.escaped (d : Document) : Document :=
  .ofList (d.fields.map fun field => (escapeKey field.1, field.2))

def adminPermission (access object : String) : Document :=
  .ofList
    [("access", .string access), ("object-global-key", .string object),
      ("subject-global-key", .string ("us#" ++ adminUser))]

def grantAdmin (access object : String) : Operation :=
  .insert permissions (object ++ "#us#" ++ adminUser) (adminPermission access object)

/-- Settings that the upgrade removes from every model. -/
def commonRemovedSettings : List String :=
  ["admin-secret", "api-port", "bootstrap-addresses-delay", "bootstrap-retry-delay",
    "bootstrap-timeout", "ca-cert", "ca-private-key", "controller-uuid", "lxc-clone-aufs",
    "prefer-ipv6", "set-numa-control-policy", "state-port", "tools-metadata-url"]

/-- Settings that the upgrade removes from the models of a cloud, in order and each once. -/
def Cloud.allRemovedSettings (cloud : Cloud) : List String :=
  (Table.ofList ((commonRemovedSettings ++ cloud.removedSettings).map fun name => (name, ()))).keys

/-- The time at which the administrator is said to have been made. -/
def adminCreated : String := "2016-11-18T12:00:00Z"

structure ControllerFacts where
  modelUuid : String
  owner : String
  cloud : Cloud
  apiPort : Value
  statePort : Value
  caCert : String
  cloudDocument : Document
  attributes : Option Document
  files : List PlannedFile

namespace ControllerFacts

/-- Read the facts; credential files are planned below `directory`. -/
def read (view : StoreView) (directory : String) : Except StepError ControllerFacts := do
  let serving ← view.fetch controllers "stateServingInfo"
  let controller ← view.fetch controllers "e"
  let modelUuid ← inDocument controllers "e" (controller.getString "model-uuid")
  let model ← view.fetch models modelUuid
  let owner ← inDocument models modelUuid (model.getString "owner")
  let settingsId := modelUuid ++ ":e"
  let stored ← view.fetch settings settingsId
  let found ← inDocument settings settingsId (stored.getDocument "settings")
  let tag ← inDocument settings settingsId (found.getString "type")
  let cloud ← Cloud.ofTag tag
  inDocument settings settingsId (cloud.checkSettings found)
  let apiPort ← inDocument controllers "stateServingInfo" (serving.require "apiport")
  let caCert ← inDocument settings settingsId (found.getString "ca-cert")
  let statePort ← inDocument controllers "stateServingInfo" (serving.require "stateport")
  let attributes ← inDocument settings settingsId (cloud.credentialAttributes found)
  let cloudDocument ← inDocument settings settingsId (cloud.document found)
  let files ← inDocument settings settingsId (cloud.credentialFiles found directory)
  return ⟨modelUuid, owner, cloud, apiPort, statePort, caCert, cloudDocument, attributes, files⟩

def controllerSettings (facts : ControllerFacts) (controllerUuid : String) : Document :=
  .ofList
    [("api-port", facts.apiPort), ("auditing-enabled", .bool false),
      ("ca-cert", .string facts.caCert), ("controller-uuid", .string controllerUuid),
      ("set-numa-control-policy", .bool false), ("state-port", facts.statePort)]

def credential (facts : ControllerFacts) : Document :=
  let base := Document.ofList
    [("owner", .string facts.owner), ("cloud", .string facts.cloud.tag),
      ("name", .string facts.cloud.tag), ("auth-type", .string facts.cloud.authType)]
  match facts.attributes with
  | some attributes => base.insert "attributes" attributes
  | none => base

def administrator (controllerUuid : String) : Document :=
  .ofList
    [("createdby", .string adminUser), ("datecreated", .string adminCreated),
      ("displayname", .string "admin"), ("object-uuid", .string controllerUuid),
      ("user", .string adminUser)]

def transaction (facts : ControllerFacts) (controllerUuid : String) : Transaction :=
  let tag := facts.cloud.tag
  [.update controllers "e" (Update.empty.setting "cloud" tag),
    .insert clouds tag facts.cloudDocument,
    .insert cloudCredentials (tag ++ "#" ++ facts.owner ++ "#" ++ tag) facts.credential,
    .insert controllers "controllerSettings"
      (Document.empty.insert "settings" (facts.controllerSettings controllerUuid).escaped),
    grantAdmin "superuser" ("c#" ++ controllerUuid),
    .insert controllerUsers adminUser (administrator controllerUuid)]

def varsAfter (facts : ControllerFacts) (vars : Variables) : Variables :=
  let tag := facts.cloud.tag
  { vars with
    controllerModelUuid := some facts.modelUuid
    cloud := some tag
    owner := some facts.owner
    credential := some (tag ++ "/" ++ facts.owner ++ "/" ++ tag) }

end ControllerFacts

def updateController (directory : String) : Step :=
  ⟨"update-controller", "Adding controller settings", fun view _ vars =>
    (ControllerFacts.read view directory).map fun facts =>
      (⟨facts.transaction vars.controllerUuid, [], facts.files⟩, facts.varsAfter vars)⟩

namespace ModelUpdate

def changes (cloud credential controllerUuid name : String) : Update :=
  let pointed :=
    ((Update.empty.setting "cloud" cloud).setting "cloud-credential" credential).setting
      "controller-uuid" controllerUuid
  let named := if name = "admin" then pointed.setting "name" "controller" else pointed
  named.clearing "server-uuid"

def settingsChanges (agentVersion : String) (removed : List String) : Update :=
  removed.foldl (fun u name => u.clearing ("settings." ++ name))
    (((Update.empty.setting "settings.agent-version" agentVersion).setting
      "settings.provisioner-harvest-mode" "destroyed").setting
      "settings.transmit-vendor-metrics" true)

/-- The operations for one model, and whether it was the administrator's. -/
def ofDocument (agentVersion cloud credential controllerUuid : String) (removed : List String)
    (d : Document) : Except StepError (Transaction × Bool) := do
  let uuid ← scannedId models d
  let name ← inDocument models uuid (d.getString "name")
  return ([.update models uuid (changes cloud credential controllerUuid name),
    grantAdmin "admin" ("e#" ++ uuid),
    .update settings (uuid ++ ":e") (settingsChanges agentVersion removed)], name == "admin")

def adminRenamed : Transaction :=
  [.remove userModelName (adminUser ++ ":admin"),
    .insert userModelName (adminUser ++ ":controller") .empty]

end ModelUpdate

def updateModels (agentVersion : String) : Step :=
  ⟨"update-models", "Updating models", fun view _ vars => do
    let tag ← vars.theCloud
    let credential ← vars.theCredential
    let cloud ← Cloud.ofTag tag
    let parts ← view.readEach models
      (ModelUpdate.ofDocument agentVersion tag credential vars.controllerUuid
        cloud.allRemovedSettings)
    let renamed := if parts.any Prod.snd then ModelUpdate.adminRenamed else []
    return (StepPlan.ofTransaction ((parts.map Prod.fst).flatten ++ renamed), vars)⟩

end FleetUpgrade
