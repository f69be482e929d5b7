import FleetUpgrade.Text.Search

/-!
# Targets and results

A target is a host with labels that only serve to tell results apart. A result says what a job did
on its target: the output of the script, or why it could not be run. A script that ran and failed
is no transport error.
-/

namespace FleetUpgrade

structure RemoteTarget where
  address : String
  labels : List String
  deriving DecidableEq

namespace RemoteTarget

/-- The labels between spaces, or the address if there are none. -/
def label (t : RemoteTarget) : String :=
  if t.labels.isEmpty then t.address else Text.join " " t.labels

def text (t : RemoteTarget) : String :=
  t.label ++ " (" ++ t.address ++ ")"

end RemoteTarget

structure RunOutput where
  code : Int
  stdout : String
  stderr : String
  deriving DecidableEq

def RunOutput.silent : RunOutput :=
  ⟨0, "", ""⟩

inductive TransportError where
  | unreachable (host reason : String)
  /-- a local program could not be started -/
  | launch (program reason : String)
  | copy (localPath destination reason : String)
  /-- the task of a target ended without a result -/
  | aborted (label : String)
  deriving DecidableEq

def TransportError.message : TransportError → String
  | .unreachable host reason => "cannot reach " ++ host ++ ": " ++ reason
  | .launch program reason => "failed to launch " ++ program ++ ": " ++ reason
  | .copy localPath destination reason =>
      "copying " ++ localPath ++ " to " ++ destination ++ ": " ++ reason
  | .aborted label => "dispatch to " ++ label ++ " did not complete"

/-- What a job did on one target. The code is zero when there is a transport error. -/
structure CommandResult where
  target : RemoteTarget
  code : Int
  stdout : String
  stderr : String
  error : Option TransportError
  deriving DecidableEq

namespace CommandResult

def completed (target : RemoteTarget) (output : RunOutput) : CommandResult :=
  ⟨target, output.code, output.stdout, output.stderr, none⟩

def failed (target : RemoteTarget) (error : TransportError) : CommandResult :=
  ⟨target, 0, "", "", some error⟩

/-- Put a line before the output; the empty line adds nothing. -/
def withFirstLine (line : String) (r : CommandResult) : CommandResult :=
  if line = "" then r
  else { r with stdout := if r.stdout = "" then line else line ++ "\n" ++ r.stdout }

def isClean (r : CommandResult) : Bool :=
  r.error.isNone && r.code == 0

/-- Whether the operator has to look at it. -/
def isProblem (r : CommandResult) : Bool :=
  !r.isClean

end CommandResult

end FleetUpgrade
