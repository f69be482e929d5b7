import FleetUpgrade.Remote.Result

/-!
# Transports

A transport copies files to remote hosts and runs scripts there. `Transport.ofHosts` is a transport
whose hosts behave as fixed in advance.
-/

namespace FleetUpgrade

inductive TransportCall where
  | copy (userHost localPath remotePath : String)
  | run (userHost script : String)
  deriving DecidableEq

namespace TransportCall

def userHost : TransportCall → String
  | .copy userHost _ _ => userHost
  | .run userHost _ => userHost

def isCopy : TransportCall → Bool
  | .copy .. => true
  | .run .. => false

def script? : TransportCall → Option String
  | .copy .. => none
  | .run _ script => some script

end TransportCall

structure Transport where
  copy : (localPath userHost remotePath : String) → Except TransportError Unit
  run : (userHost script : String) → Except TransportError RunOutput

/-- How a host behaves. -/
inductive HostBehaviour where
  /-- copies succeed and scripts end like this -/
  | runs (output : RunOutput)
  /-- nothing gets through -/
  | unreachable (reason : String)
  /-- copies fail and scripts succeed in silence -/
  | copyFails (reason : String)

/-- The host after the last at sign. -/
def hostOf (userHost : String) : String :=
  match Text.cutLast '@' userHost with
  | some (_, host) => host
  | none => userHost

/-- A transport whose hosts behave as given; all others succeed in silence. -/
def Transport.ofHosts (behaviour : String → Option HostBehaviour) : Transport where
  copy localPath userHost remotePath :=
    match behaviour (hostOf userHost) with
    | some (.unreachable reason) => .error (.unreachable userHost reason)
    | some (.copyFails reason) =>
        .error (.copy localPath (userHost ++ ":" ++ remotePath) reason)
    | _ => .ok ()
  run userHost _ :=
    match behaviour (hostOf userHost) with
    | some (.unreachable reason) => .error (.unreachable userHost reason)
    | some (.runs output) => .ok output
    | _ => .ok .silent

end FleetUpgrade
