import FleetUpgrade.Fleet.Config
import FleetUpgrade.Remote.Script

/-!
# The scripts of the commands

What the commands run on the machines: the services of the agents are asked, stopped and started,
this program is moved into place, and the agents are moved to new tools.
-/

namespace FleetUpgrade

/-- What is done with the agents' services, and on which machines. -/
inductive AgentAction where
  /-- ask on every machine -/
  | status
  /-- stop on every machine -/
  | stop
  /-- start on the controller's machine -/
  | startController
  /-- start on all other machines -/
  | startOthers
  deriving DecidableEq

namespace AgentAction

def name : AgentAction → String
  | .status => "status"
  | .stop => "stop"
  | .startController => "start-controller"
  | .startOthers => "start-others"

def ofName? : String → Option AgentAction
  | "status" => some .status
  | "stop" => some .stop
  | "start-controller" => some .startController
  | "start-others" => some .startOthers
  | _ => none

def serviceCommand : AgentAction → String
  | .status => "status"
  | .stop => "stop"
  | .startController => "start"
  | .startOthers => "start"

/-- Whether the action changes the machine; asking does not, and is done in a preview too. -/
def changesHost : AgentAction → Bool
  | .status => false
  | _ => true

end AgentAction

namespace Script

def ofLines (lines : List String) : Script :=
  ⟨String.join (lines.map fun line => line ++ "\n")⟩

def services (agentsDirectory : String) (action : AgentAction) : Script :=
  .ofLines
    ["cd " ++ agentsDirectory, "for agent in *", "do",
      "    " ++ (if action.changesHost then marker else "") ++ "service jujud-$agent " ++
        action.serviceCommand,
      "done"]

/-- Move an uploaded file into the place of this program. -/
def installBinary (config : FleetConfig) (remoteName : String) : Script :=
  .ofLines
    [marker ++ "mv " ++ config.remoteHome ++ "/" ++ remoteName ++ " " ++ config.remoteBinaryPath]

/-- The commands for hooks, which are links to the agent's program. -/
def hookCommands : List String :=
  ["action-fail", "action-get", "action-set", "add-metric", "application-version-set",
    "close-port", "config-get", "is-leader", "juju-log", "juju-reboot", "leader-get",
    "leader-set", "network-get", "opened-ports", "open-port", "payload-register",
    "payload-status-set", "payload-unregister", "relation-get", "relation-ids", "relation-list",
    "relation-set", "resource-get", "status-get", "status-set", "storage-add", "storage-get",
    "storage-list", "unit-get"]

def unpackLines (config : FleetConfig) (archive : String) : List String :=
  let version := config.toolsVersion
  let target := config.toolsDirectory ++ "/" ++ version
  ["if [ ! -d " ++ target ++ " ]; then",
    "    echo Unpack " ++ version ++ " tools and create jujuc command symlinks",
    "    " ++ marker ++ "mkdir -p " ++ target,
    "    " ++ marker ++ "tar --extract --gzip --file=" ++ archive ++ " --directory=" ++ target,
    "    for i in " ++ Text.join " " hookCommands ++ "; do",
    "        " ++ marker ++ "ln -s " ++ target ++ "/jujud \"" ++ target ++ "/$i\"",
    "    done",
    "fi"]

/-- The lines that link every agent to the tools and name the controller in its configuration. -/
def relinkLines (config : FleetConfig) (controllerTag : String) : List String :=
  let link := config.toolsDirectory ++ "/$agent"
  ["cd " ++ config.agentsDirectory,
    "for agent in *",
    "do",
    "    echo Set tools symlink for $agent",
    "    " ++ marker ++ "rm " ++ link,
    "    " ++ marker ++ "ln -s " ++ config.toolsVersion ++ " " ++ link,
    "",
    "    version=$(head -n 1 $agent/agent.conf)",
    "    if [ \"$version\" = \"# format 2.0\" ]; then",
    "        echo $agent/agent.conf already in format 2.0",
    "    elif [ \"$version\" = \"# format 1.18\" ]; then",
    "        echo Update $agent/agent.conf to be format 2.0",
    "        " ++ marker ++ "cp $agent/agent.conf $agent/agent.conf.old",
    "        " ++ marker ++ "sed -i 's/# format 1.18/# format 2.0/; " ++
      "s/upgradedToVersion: 2.0-beta7/upgradedToVersion: 2.0-rc1\\ncontroller: " ++
      controllerTag ++ "/' $agent/agent.conf",
    "    else",
    "        echo $agent/agent.conf has unexpected format: $version",
    "    fi",
    "done"]

def upgradeAgents (config : FleetConfig) (archive controllerTag : String) : Script :=
  .ofLines (unpackLines config archive ++ "" :: relinkLines config controllerTag)

end Script

end FleetUpgrade
