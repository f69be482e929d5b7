import FleetUpgrade.Remote.Shell
import FleetUpgrade.Remote.Transport
import FleetUpgrade.Text.Blank
import FleetUpgrade.Text.Utf8

/-!
# Secure shell

Scripts are run with `ssh` and files are copied with `scp`, both with one identity file and without
asking. The script is one word of a command that runs it as the superuser. How the programs ended
decides what became of the job.
-/

namespace FleetUpgrade.Ssh

structure ProgramEnd where
  /-- the exit code, unless a signal ended the program -/
  code : Option Nat
  stdout : List UInt8
  stderr : List UInt8

def ProgramEnd.silent : ProgramEnd :=
  ⟨some 0, [], []⟩

/-- The exit code of `ssh` for failures of its own. -/
def connectionFailure : Nat := 255

def commonArguments (identityFile : String) : List String :=
  ["-i", identityFile, "-o", "BatchMode=yes", "-o", "StrictHostKeyChecking=no"]

/-- The command that runs a script as the superuser. -/
def remoteCommand (script : String) : String :=
  "sudo -n bash -c " ++ Shell.quote script

def runArguments (identityFile userHost script : String) : List String :=
  commonArguments identityFile ++ [userHost, remoteCommand script]

def destination (userHost remotePath : String) : String :=
  userHost ++ ":" ++ remotePath

def copyArguments (identityFile localPath userHost remotePath : String) : List String :=
  commonArguments identityFile ++ [localPath, destination userHost remotePath]

def runOutcome (userHost : String) (ended : ProgramEnd) : Except TransportError RunOutput :=
  let stderr := Text.Utf8.decodeLossy ended.stderr
  match ended.code with
  | none => .error (.unreachable userHost "ssh terminated by signal")
  | some code =>
      if code = connectionFailure then .error (.unreachable userHost (Text.trim stderr))
      else .ok ⟨code, Text.Utf8.decodeLossy ended.stdout, stderr⟩

def copyOutcome (localPath userHost remotePath : String) (ended : ProgramEnd) :
    Except TransportError Unit :=
  if ended.code = some 0 then .ok ()
  else
    .error (.copy localPath (destination userHost remotePath)
      (Text.trim (Text.Utf8.decodeLossy ended.stderr)))

/-- The programs that a transport starts: how one ends that is given these arguments, or why it
cannot be started. -/
structure Programs where
  ssh : List String → Except String ProgramEnd
  scp : List String → Except String ProgramEnd

/-- How many bytes an argument of a program may have. -/
def argumentLimit : Nat := 131071

/-- Why no program can be given certain arguments. -/
def argumentsError? (arguments : List String) : Option String :=
  if arguments.any fun argument => argument.toList.contains (Char.ofNat 0) then
    some "nul byte found in provided data"
  else if arguments.any fun argument => argumentLimit < argument.utf8ByteSize then
    some "Argument list too long (os error 7)"
  else none

def launch (name : String) (start : List String → Except String ProgramEnd)
    (arguments : List String) : Except TransportError ProgramEnd :=
  match argumentsError? arguments with
  | some reason => .error (.launch name reason)
  | none => (start arguments).mapError (.launch name)

def transport (programs : Programs) (identityFile : String) : Transport where
  copy localPath userHost remotePath :=
    (launch "scp" programs.scp (copyArguments identityFile localPath userHost remotePath)).bind
      (copyOutcome localPath userHost remotePath)
  run userHost script :=
    (launch "ssh" programs.ssh (runArguments identityFile userHost script)).bind
      (runOutcome userHost)

end FleetUpgrade.Ssh
