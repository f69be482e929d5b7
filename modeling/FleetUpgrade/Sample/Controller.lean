import FleetUpgrade.Snapshot.Basic

/-!
# A sample controller

The store of a controller with one hosted model that runs a database, as it is before the upgrade.
-/

namespace FleetUpgrade.Sample

def controllerModel : String := "deadbeef-0bad-400d-8000-4b1d0d06f00d"

def hostedModel : String := "c0ffee00-0bad-400d-8000-4b1d0d06f00d"

/-- Addresses of the machines: the controller's, and the two of the hosted model. -/
def machineAddresses : List String :=
  ["10.0.0.1", "10.0.0.2", "10.0.0.3"]

def inModel (model localPart : String) : String :=
  model ++ ":" ++ localPart

structure Entry where
  collection : String
  id : String
  fields : Fields

def settings (model name : String) : Value :=
  .document
    [("type", "lxd"), ("name", name), ("uuid", model), ("agent-version", "2.0-beta7"),
      ("ca-cert", "-----BEGIN CERTIFICATE-----\nCA\n-----END CERTIFICATE-----"),
      ("client-cert", "CLIENT CERT"), ("client-key", "CLIENT KEY"),
      ("server-cert", "SERVER CERT"), ("namespace", "admin"), ("admin-secret", "s3cret"),
      ("api-port", .int 17070), ("state-port", .int 37017),
      ("controller-uuid", controllerModel)]

def machine (model id address : String) : Entry :=
  ⟨"machines", inModel model id,
    [("machineid", id), ("model-uuid", model), ("series", "xenial"),
      ("supportedcontainers", .list ["lxc", "lxd"]),
      ("preferredpublicaddress", .document [("value", address)]),
      ("tools", .document [("version", "2.0-beta7-xenial-amd64")]), ("txn-revno", .int 5)]⟩

def inHosted : String × Value :=
  ("model-uuid", hostedModel)

/-- The fields of an old document of the hosted model, which names its model twice. -/
def inHostedTwice (rest : Fields) : Fields :=
  inHosted :: ("env-uuid", hostedModel) :: rest

def controllerEntries : List Entry :=
  [⟨"controllers", "stateServingInfo", [("apiport", .int 17070), ("stateport", .int 37017)]⟩,
    ⟨"controllers", "e", [("model-uuid", controllerModel)]⟩,
    ⟨"models", controllerModel,
      [("name", "admin"), ("owner", "admin@local"), ("server-uuid", controllerModel),
        ("life", .int 0)]⟩,
    ⟨"models", hostedModel,
      [("name", "default"), ("owner", "admin@local"), ("server-uuid", controllerModel),
        ("life", .int 0)]⟩,
    ⟨"usermodelname", "admin@local:admin", []⟩,
    ⟨"usermodelname", "admin@local:default", []⟩,
    ⟨"settings", inModel controllerModel "e",
      [("model-uuid", controllerModel), ("settings", settings controllerModel "admin")]⟩,
    ⟨"settings", inModel hostedModel "e", [inHosted, ("settings", settings hostedModel "default")]⟩,
    ⟨"settings", inModel hostedModel "s#mysql",
      inHostedTwice [("settings", .document [("dataset-size", "80%")]), ("txn-revno", .int 2)]⟩,
    ⟨"settingsrefs", inModel hostedModel "s#mysql#cs:trusty/mysql-38", [("refcount", .int 1)]⟩]

def serviceEntries : List Entry :=
  [⟨"services", inModel hostedModel "mysql",
      [("name", "mysql"), inHosted, ("charmurl", "cs:trusty/mysql-38"), ("unitcount", .int 1),
        ("relationcount", .int 1), ("ownertag", "user-admin@local"), ("txn-revno", .int 3),
        ("txn-queue", .list ["abc_1"])]⟩,
    ⟨"storageconstraints", inModel hostedModel "s#mysql",
      [inHosted, ("constraints", .document [])]⟩,
    ⟨"units", inModel hostedModel "mysql/0",
      [("name", "mysql/0"), inHosted, ("service", "mysql"), ("machineid", "1"),
        ("ports", .list []), ("privateaddress", "10.0.0.3"), ("publicaddress", "10.0.0.3")]⟩,
    ⟨"leases", inModel hostedModel "lease#service-leadership#mysql#",
      [inHosted, ("namespace", "service-leadership"), ("type", "lease"), ("name", "mysql"),
        ("holder", "mysql/0")]⟩,
    ⟨"leases", inModel hostedModel "clock#service-leadership#",
      [inHosted, ("namespace", "service-leadership"), ("type", "clock")]⟩,
    ⟨"modelEntityRefs", controllerModel, [("machines", .list ["0"]), ("services", .list [])]⟩,
    ⟨"modelEntityRefs", hostedModel,
      [("machines", .list ["0", "1"]), ("services", .list ["mysql"])]⟩,
    ⟨"relations", inModel hostedModel "mysql:cluster",
      [("key", "mysql:cluster"), inHosted,
        ("endpoints", .list [.document
          [("servicename", "mysql"),
            ("relation", .document [("name", "cluster"), ("role", "peer")])]])]⟩,
    ⟨"resources", inModel hostedModel "mysql/data", inHostedTwice [("service-id", "mysql")]⟩,
    ⟨"annotations", inModel hostedModel "s#mysql",
      inHostedTwice [("globalkey", "s#mysql"), ("annotations", .document [("owner", "db-team")])]⟩,
    ⟨"constraints", inModel hostedModel "s#mysql", inHostedTwice [("mem", .int 1024)]⟩,
    ⟨"constraints", inModel hostedModel "m#1", [inHosted]⟩,
    ⟨"endpointbindings", inModel hostedModel "s#mysql", inHostedTwice [("bindings", .document [])]⟩,
    ⟨"statuses", inModel hostedModel "s#mysql", inHostedTwice [("status", "active")]⟩,
    ⟨"statuses", inModel hostedModel "u#mysql/0", [inHosted, ("status", "idle")]⟩,
    ⟨"statuseshistory", "1", [inHosted, ("globalkey", "s#mysql"), ("status", "active")]⟩,
    ⟨"statuseshistory", "2", [inHosted, ("globalkey", "u#mysql/0"), ("status", "idle")]⟩,
    ⟨"sequence", inModel hostedModel "service-mysql",
      [("name", "service-mysql"), inHosted, ("counter", .int 1)]⟩,
    ⟨"sequence", inModel hostedModel "machine",
      [("name", "machine"), inHosted, ("counter", .int 2)]⟩]

def machineEntries : List Entry :=
  [⟨"users", "admin", [("name", "admin"), ("deactivated", .bool false)]⟩,
    ⟨"modelusers", inModel controllerModel "admin@local",
      [("model-uuid", controllerModel), ("user", "admin@local"), ("access", "admin")]⟩,
    ⟨"modelusers", inModel hostedModel "admin@local",
      [inHosted, ("user", "admin@local"), ("access", "admin")]⟩,
    machine controllerModel "0" "10.0.0.1",
    machine hostedModel "0" "10.0.0.2",
    machine hostedModel "1" "10.0.0.3",
    ⟨"cloudimagemetadata", inModel controllerModel "xenial-amd64-released",
      [("model-uuid", controllerModel), ("image_id", "ubuntu-16.04-amd64")]⟩,
    ⟨"spaces", inModel hostedModel "default",
      [inHosted, ("providerid", .string (inModel hostedModel "space-1"))]⟩,
    ⟨"subnets", inModel hostedModel "10.0.0.0/24",
      [inHosted, ("providerid", .string (inModel hostedModel "subnet-1"))]⟩,
    ⟨"linklayerdevices", inModel hostedModel "m#1#d#eth0", [inHosted, ("name", "eth0")]⟩]

/-- The stored document of an entry: its id first. -/
def Entry.document (e : Entry) : Document :=
  .ofList ((Document.idField, .string e.id) :: e.fields)

def Entry.addTo (cs : Collections) (e : Entry) : Collections :=
  cs.insert e.collection ((cs.collection e.collection).insert e.id e.document)

def controller : Snapshot :=
  ⟨(controllerEntries ++ serviceEntries ++ machineEntries).foldl Entry.addTo Table.empty, []⟩

end FleetUpgrade.Sample
