import FleetUpgrade.Disk.FilePath
import FleetUpgrade.Remote.Shell
import FleetUpgrade.Run.Mode

/-!
# Scripts for remote hosts

Commands that change a host carry a marker. A live script drops the markers; a preview turns each
of them into an `echo`, so that the host only says what it would do. A preview does not upload
either, but echoes the copy.
-/

namespace FleetUpgrade

/-- A file that is copied to the user's home directory before the script runs. -/
structure Upload where
  localPath : String
  remoteName : String
  deriving DecidableEq

namespace Upload

def keepName (localPath : String) : Upload :=
  ⟨localPath, (FilePath.fileName? localPath).getD "upload"⟩

def remotePath (u : Upload) : String :=
  "~/" ++ u.remoteName

end Upload

structure RemoteJob where
  script : String
  upload : Option Upload
  deriving DecidableEq

/-- The text of a script with its markers. -/
structure Script where
  text : String

namespace Script

/-- What stands before a command that changes the host. -/
def marker : String := "do-op "

/-- What a preview puts in place of a marker. -/
def echo : String := "echo '  run: '"

/-- The options of the shell: commands are traced when debugging. -/
def preamble (context : RunContext) : String :=
  if context.verbosity.isDebug then "set -xeu\n" else "set -eu\n"

def body (s : Script) (mode : RunMode) : String :=
  Text.replace s.text marker (if mode.isLive then "" else echo)

def render (s : Script) (context : RunContext) : String :=
  preamble context ++ s.body context.mode

def job (s : Script) (context : RunContext) : RemoteJob :=
  ⟨s.render context, none⟩

def jobWithUpload (s : Script) (context : RunContext) (upload : Upload) : RemoteJob :=
  match context.mode with
  | .live => ⟨s.render context, some upload⟩
  | .preview =>
      let copy := Shell.quote ("scp " ++ upload.localPath ++ " " ++ upload.remotePath)
      ⟨preamble context ++ "echo " ++ copy ++ "\n" ++ s.body .preview, none⟩

end Script

end FleetUpgrade
