import FleetUpgrade.CommandLine.Run

/-!
# The program

The files that the arguments and the configuration name make a disk, the arguments are run on it,
and what the run changed is written. The program starts no other program, so every launch for a
remote host fails and says why.
-/

namespace FleetUpgrade.Program

def noPrograms : Ssh.Programs where
  ssh _ := .error "cannot start programs"
  scp _ := .error "cannot start programs"

/-- Sixteen random bytes as a UUID of version four. -/
def freshUuid : IO String := do
  let octets ← IO.getRandomBytes 16
  let digits := (Text.Hex.ofBytes octets.toList).set 12 '4' |>.set 16 'a'
  let part := fun start count => String.ofList ((digits.drop start).take count)
  return Text.join "-" [part 0 8, part 8 4, part 12 4, part 16 4, part 20 12]

def pathOf (loc : Location) : String :=
  if loc = .root then "/" else loc

def locationOfNames (names : List String) : Location :=
  names.foldl Location.child .root

/-- The location of a path when no directory on the way is a link. -/
def locationOf (here : Location) (path : String) : Location :=
  (FilePath.steps path).foldl
    (fun loc step => if step = ".." then loc.parent else loc.child step)
    (if FilePath.isAbsolute path then .root else here)

/-- The disk with what stands at a location of the computer's disk. -/
def withEntryAt (disk : Disk) (loc : Location) : IO Disk := do
  match ← (IO.FS.readBinFile (pathOf loc)).toBaseIO with
  | .ok contents => return disk.withNewFile loc contents
  | .error _ =>
      match ← (IO.FS.realPath (pathOf loc)).toBaseIO with
      | .ok real => return if ← real.isDir then disk.withEntry loc .directory else disk
      | .error _ => return disk

def fetch (disk : Disk) (path : String) : IO Disk := do
  let names := FilePath.steps (locationOf disk.here path)
  (List.range names.length).foldlM
    (fun disk n => withEntryAt disk (locationOfNames (names.take (n + 1)))) disk

/-- The files that a command reads, beside the store. -/
def filesOf : FleetCommand → List String
  | .upgradeStore tools => [tools]
  | .upgradeAgents tools _ => [tools]
  | _ => []

/-- The files that a request names, beside those of its configuration. -/
def filesNamed (settings : Settings) (command : FleetCommand) : List String :=
  settings.config.toList ++ settings.auditLog.toList ++ filesOf command

/-- The files that a configuration names and a command reads or writes. -/
def filesConfigured (config : FleetConfig) : List String :=
  [config.storePath, FileStore.temporaryPath config.storePath, config.certDirectory]

def diskFor (here : Location) (request : Option Request) : IO Disk := do
  let bare ← fetch { Disk.empty with here := here } "."
  match request with
  | some (.run settings command) =>
      let disk ← (filesNamed settings command).foldlM fetch bare
      match CommandLine.configOf settings disk with
      | .ok config => (filesConfigured config).foldlM fetch disk
      | .error _ => return disk
  | _ => return bare

def store (loc : Location) (entry : Entry) : IO Unit :=
  match entry with
  | .directory => IO.FS.createDirAll (pathOf loc)
  | .file _ contents mode => do
      IO.FS.writeBinFile (pathOf loc) contents
      if mode ≠ Disk.newFileMode then
        let right := fun shift =>
          IO.AccessRight.mk (mode >>> shift &&& 4 ≠ 0) (mode >>> shift &&& 2 ≠ 0)
            (mode >>> shift &&& 1 ≠ 0)
        IO.setAccessRights (pathOf loc) ⟨right 6, right 3, right 0⟩

/-- Write what is not the same on the two disks. -/
def writeChanges (before after : Disk) : IO Unit := do
  for (loc, entry) in after.entries.reverse do
    match entry, before.entry? loc with
    | .directory, some .directory => pure ()
    | .file _ contents mode, some (.file _ old oldMode) =>
        if contents.data ≠ old.data ∨ mode ≠ oldMode then store loc entry
    | _, _ => store loc entry
  for (loc, _) in before.entries do
    if (after.entry? loc).isNone then IO.FS.removeFile (pathOf loc)

end FleetUpgrade.Program

open FleetUpgrade in
def main (arguments : List String) : IO UInt32 := do
  let here := Program.locationOfNames (FilePath.steps (← IO.currentDir).toString)
  let before ← Program.diskFor here (Arguments.parse? arguments)
  let env : Environment :=
    ⟨Program.noPrograms, ← Program.freshUuid, (← IO.appPath).toString⟩
  let ending := CommandLine.run env arguments before
  Program.writeChanges before ending.disk
  IO.print ending.output
  if let some message := ending.error then IO.eprintln ("Error: " ++ message)
  return UInt32.ofNat ending.code
