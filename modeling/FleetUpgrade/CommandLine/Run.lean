import FleetUpgrade.CommandLine.Help
import FleetUpgrade.Fleet.Commands
import FleetUpgrade.Remote.Ssh
import FleetUpgrade.Store.File

/-!
# Running a command line

The configuration is loaded, the audit log is created, and the store is opened before the command
runs. The first failure ends the run with a message and an exit code.
-/

namespace FleetUpgrade

/-- What a run finds beside its arguments and the disk. -/
structure Environment where
  programs : Ssh.Programs
  /-- a UUID that was never used -/
  freshUuid : String
  /-- the file of this program -/
  executable : String

/-- How a run ended. -/
structure Ending where
  code : Nat
  output : String
  /-- the outermost error, if there was one -/
  error : Option String
  disk : Disk

namespace CommandLine

def versionText : String := "fleetmig 0.1.0\n"

def succeed (output : String) (disk : Disk) : Ending :=
  ⟨0, output, none, disk⟩

def fail (message output : String) (disk : Disk) : Ending :=
  ⟨1, output, some message, disk⟩

def configOf (settings : Settings) (disk : Disk) : Except ConfigError FleetConfig :=
  let loaded :=
    match settings.config with
    | some path => FleetConfig.load path disk
    | none => .ok .standard
  loaded.map fun config =>
    match settings.store with
    | some path => { config with storePath := path }
    | none => config

/-- Create the audit log that the settings choose, unless its file cannot be written. -/
def createLog (settings : Settings) (disk : Disk) : Option (AuditLog × Disk) :=
  match settings.auditLog with
  | some path => (disk.create? path).map fun opened => (⟨[], none, some opened.1⟩, opened.2)
  | none => some (.empty, disk)

def commandOf (env : Environment) : FleetCommand → Command FileStore Unit
  | .upgradeStore tools => do
      let _ ← Command.upgradeStore env.freshUuid tools
  | .cleanStore => do
      let _ ← Command.cleanStore env.freshUuid
  | .verifyStore => do
      let _ ← Command.verifyStore
  | .agents argument =>
      match Command.agentAction argument with
      | .ok action => Command.agents action
      | .error e => throw (.usage e)
  | .distribute => Command.distribute env.executable
  | .upgradeAgents tools addresses => Command.upgradeAgents tools addresses

def sessionOf (env : Environment) (settings : Settings) (config : FleetConfig)
    (site : Site FileStore) : Session FileStore where
  config := config
  context := ⟨.ofLiveFlag settings.live, .ofCount settings.verbose⟩
  dispatcher :=
    ⟨config.sshUser, Ssh.transport env.programs config.identityFile, Dispatcher.inOrder⟩
  site := site
  output := .empty
  calls := []

def execute (env : Environment) (settings : Settings) (command : FleetCommand) (disk : Disk) :
    Ending :=
  match configOf settings disk with
  | .error e => fail e.message "" disk
  | .ok config =>
      match createLog settings disk with
      | none => fail ("creating audit log " ++ settings.auditLog.getD "") "" disk
      | some (log, disk) =>
          match FileStore.openAt config.storePath disk with
          | .error _ => fail "opening the controller store" "" disk
          | .ok store =>
              let site := ⟨store, disk, log⟩
              match (commandOf env command).run (sessionOf env settings config site) with
              | (.error e, session) => fail e.message session.output.text session.site.disk
              | (.ok _, session) => succeed session.output.text session.site.disk

def run (env : Environment) (arguments : List String) (disk : Disk) : Ending :=
  match Arguments.parse? arguments with
  | none => ⟨2, "", none, disk⟩
  | some (.help topic) => succeed (Help.text topic) disk
  | some .version => succeed versionText disk
  | some (.run settings command) => execute env settings command disk

end CommandLine

end FleetUpgrade
