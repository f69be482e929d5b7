import FleetUpgrade.Disk.Basic
import FleetUpgrade.Text.Quoted
import FleetUpgrade.Toml.Assignments

/-!
# Configuration

Paths, credentials and versions for the operator's commands. Every field has a default that fits a
stock controller, and a configuration file sets any of them.
-/

namespace FleetUpgrade

structure FleetConfig where
  /-- the snapshot of the controller's store -/
  storePath : String
  sshUser : String
  identityFile : String
  agentsDirectory : String
  toolsDirectory : String
  /-- where this program is installed on other machines -/
  remoteBinaryPath : String
  toolsVersion : String
  agentVersion : String
  certDirectory : String
  deriving DecidableEq

inductive ConfigError where
  | read (path : String)
  | parse
  /-- a field that must not be empty is -/
  | empty (field : String)
  deriving DecidableEq

def ConfigError.message : ConfigError → String
  | .read path => "reading config " ++ path
  | .parse => "parsing config"
  | .empty field => "invalid config field " ++ field ++ ": must not be empty"

namespace FleetConfig

/-- The configuration of a stock controller. -/
def standard : FleetConfig where
  storePath := "/var/lib/juju/fleetmig-store.json"
  sshUser := "ubuntu"
  identityFile := "/var/lib/juju/system-identity"
  agentsDirectory := "/var/lib/juju/agents"
  toolsDirectory := "/var/lib/juju/tools"
  remoteBinaryPath := "/var/lib/juju/fleetmig"
  toolsVersion := "2.0.0-xenial-amd64"
  agentVersion := "2.0.0"
  certDirectory := "/etc/juju"

def set? (config : FleetConfig) (field value : String) : Option FleetConfig :=
  match field with
  | "store_path" => some { config with storePath := value }
  | "ssh_user" => some { config with sshUser := value }
  | "identity_file" => some { config with identityFile := value }
  | "agents_dir" => some { config with agentsDirectory := value }
  | "tools_dir" => some { config with toolsDirectory := value }
  | "remote_binary_path" => some { config with remoteBinaryPath := value }
  | "tools_version" => some { config with toolsVersion := value }
  | "agent_version" => some { config with agentVersion := value }
  | "cert_dir" => some { config with certDirectory := value }
  | _ => none

/-- Check that the user and the version of the tools are not empty. -/
def validate (config : FleetConfig) : Except ConfigError Unit :=
  if config.sshUser = "" then .error (.empty "ssh_user")
  else if config.toolsVersion = "" then .error (.empty "tools_version")
  else .ok ()

/-- The standard configuration with fields set; no field may be set twice. -/
def ofAssignments? (entries : List (String × String)) : Option FleetConfig :=
  if (entries.map Prod.fst).Nodup then
    entries.foldlM (fun config entry => config.set? entry.1 entry.2) standard
  else none

def ofText (text : String) : Except ConfigError FleetConfig :=
  match (Toml.parse? text).bind ofAssignments? with
  | none => .error .parse
  | some config => config.validate.map fun _ => config

def load (path : String) (disk : Disk) : Except ConfigError FleetConfig :=
  match disk.readText? path with
  | none => .error (.read path)
  | some text => ofText text

def remoteHome (config : FleetConfig) : String :=
  "/home/" ++ config.sshUser

end FleetConfig

end FleetUpgrade
