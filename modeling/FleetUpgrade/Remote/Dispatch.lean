import FleetUpgrade.Remote.Script
import FleetUpgrade.Remote.Transport

/-!
# Dispatching a job

A job is sent to every target by a task of its own. Tasks hand in their results with the index of
their target in whatever order they finish; the results are then put in the order of the targets.
A task that hands in nothing leaves a place that is filled with an error.
-/

namespace FleetUpgrade

structure Dispatcher where
  user : String
  transport : Transport
  /-- the indices of the targets whose tasks finish, in the order in which they do -/
  finishing : List RemoteTarget → List Nat

namespace Dispatcher

def defaultUser : String := "ubuntu"

/-- All tasks finish, in the order of their targets. -/
def inOrder (targets : List RemoteTarget) : List Nat :=
  List.range targets.length

def userHost (d : Dispatcher) (target : RemoteTarget) : String :=
  d.user ++ "@" ++ target.address

/-- What the task of a target asks of the transport, in order: a failed copy is followed by
nothing. -/
def callsOf (d : Dispatcher) (job : RemoteJob) (target : RemoteTarget) : List TransportCall :=
  let host := d.userHost target
  match job.upload with
  | none => [.run host job.script]
  | some upload =>
      .copy host upload.localPath upload.remotePath ::
        match d.transport.copy upload.localPath host upload.remotePath with
        | .error _ => []
        | .ok _ => [.run host job.script]

def runScript (d : Dispatcher) (job : RemoteJob) (target : RemoteTarget) : CommandResult :=
  match d.transport.run (d.userHost target) job.script with
  | .ok output => .completed target output
  | .error e => .failed target e

/-- The result of the task of a target; it says what was copied. -/
def runJob (d : Dispatcher) (job : RemoteJob) (target : RemoteTarget) : CommandResult :=
  match job.upload with
  | none => d.runScript job target
  | some upload =>
      let host := d.userHost target
      let line := "scp " ++ upload.localPath ++ " " ++ host ++ ":" ++ upload.remotePath
      match d.transport.copy upload.localPath host upload.remotePath with
      | .error e => (CommandResult.failed target e).withFirstLine line
      | .ok _ => (d.runScript job target).withFirstLine line

/-- Put results in the places of their targets; a later one takes the place of an earlier one. -/
def collect (arrivals : List (Nat × CommandResult)) (places : List (Option CommandResult)) :
    List (Option CommandResult) :=
  arrivals.foldl (fun places arrival => places.set arrival.1 (some arrival.2)) places

def aborted (target : RemoteTarget) : CommandResult :=
  .failed target (.aborted target.label)

def finished (d : Dispatcher) (targets : List RemoteTarget) : List (Nat × RemoteTarget) :=
  (d.finishing targets).filterMap fun i => targets[i]?.map fun target => (i, target)

/-- What the tasks hand in, in the order in which they finish. -/
def arrivals (d : Dispatcher) (job : RemoteJob) (targets : List RemoteTarget) :
    List (Nat × CommandResult) :=
  (d.finished targets).map fun entry => (entry.1, d.runJob job entry.2)

/-- The results of all targets, in their order. -/
def dispatch (d : Dispatcher) (job : RemoteJob) (targets : List RemoteTarget) :
    List CommandResult :=
  let places := collect (d.arrivals job targets) (List.replicate targets.length none)
  List.zipWith (fun place target => place.getD (aborted target)) places targets

def calls (d : Dispatcher) (job : RemoteJob) (targets : List RemoteTarget) : List TransportCall :=
  (d.finished targets).flatMap fun entry => d.callsOf job entry.2

end Dispatcher

end FleetUpgrade
