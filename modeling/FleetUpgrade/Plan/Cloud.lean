import FleetUpgrade.Plan.Step

/-!
# Clouds

What the upgrade of a controller needs to know of each type of cloud: how its credential
authenticates, which settings it needs, which settings the upgrade removes, what its cloud
document and credential hold, and which files keep credential material.
-/

namespace FleetUpgrade

inductive Cloud where
  | lxd
  | maas
  deriving DecidableEq

namespace Cloud

/-- The tag of a type, as it stands in a controller model's settings. -/
def tag : Cloud → String
  | .lxd => "lxd"
  | .maas => "maas"

def ofTag (tag : String) : Except StepError Cloud :=
  match tag with
  | "lxd" => .ok .lxd
  | "maas" => .ok .maas
  | other => .error (.unsupportedCloud other)

def authType : Cloud → String
  | .lxd => "empty"
  | .maas => "oauth1"

/-- Settings that must be strings, beside the common ones. -/
def requiredSettings : Cloud → List String
  | .lxd => ["client-cert", "client-key", "server-cert"]
  | .maas => ["maas-server", "maas-oauth"]

/-- Settings that the upgrade removes, beside the common ones. -/
def removedSettings : Cloud → List String
  | .lxd => ["client-cert", "client-key", "namespace", "remote-url", "server-cert"]
  | .maas => ["maas-agent-name", "maas-oauth", "maas-server"]

/-- Settings that hold certificates, and the files they are written to. -/
def certificates : Cloud → List (String × String)
  | .lxd =>
      [("client-cert", "lxd-client.crt"), ("client-key", "lxd-client.key"),
        ("server-cert", "lxd-server.crt")]
  | .maas => []

def checkSettings (cloud : Cloud) (settings : Document) : Except FieldError Unit :=
  cloud.requiredSettings.forM fun name => (settings.getString name).map fun _ => ()

/-- Fields of the cloud document beside its name, type and authentication. -/
def fields (cloud : Cloud) (settings : Document) : Except FieldError Document :=
  match cloud with
  | .lxd =>
      .ok (Document.empty.insert "regions" (Document.empty.insert "localhost" Document.empty))
  | .maas =>
      (settings.getString "maas-server").map fun server => Document.empty.insert "endpoint" server

def document (cloud : Cloud) (settings : Document) : Except FieldError Document :=
  (cloud.fields settings).map fun extra =>
    extra.fields.foldl (fun d field => d.insert field.1 field.2)
      (Document.ofList
        [("name", cloud.tag), ("type", cloud.tag), ("auth-types", .list [.string cloud.authType])])

def credentialAttributes (cloud : Cloud) (settings : Document) :
    Except FieldError (Option Document) :=
  match cloud with
  | .lxd => .ok none
  | .maas =>
      (settings.getString "maas-oauth").map fun oauth =>
        some (Document.empty.insert "maas-oauth" oauth)

def credentialFiles (cloud : Cloud) (settings : Document) (directory : String) :
    Except FieldError (List PlannedFile) :=
  cloud.certificates.mapM fun certificate =>
    (settings.getString certificate.1).map fun contents =>
      PlannedFile.ownerOnly (FilePath.join directory certificate.2) contents

end Cloud

end FleetUpgrade
