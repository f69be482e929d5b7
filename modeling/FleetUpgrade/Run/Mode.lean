/-!
# Run modes

A live run makes its changes; a preview describes them and makes none.
-/

namespace FleetUpgrade

/-- Whether changes are made or only described. -/
inductive RunMode where
  | preview
  | live
  deriving DecidableEq

namespace RunMode

def ofLiveFlag (live : Bool) : RunMode :=
  if live then .live else .preview

def isLive : RunMode → Bool
  | .live => true
  | .preview => false

def name : RunMode → String
  | .preview => "dry-run"
  | .live => "LIVE"

end RunMode

/-- How much is logged. -/
inductive Verbosity where
  | normal
  | debug
  | trace
  deriving DecidableEq

namespace Verbosity

def ofCount : Nat → Verbosity
  | 0 => .normal
  | 1 => .debug
  | _ => .trace

def isDebug : Verbosity → Bool
  | .normal => false
  | _ => true

/-- What the log lets through by default. -/
def directive : Verbosity → String
  | .normal => "info"
  | .debug => "info,fleetmig=debug"
  | .trace => "debug,fleetmig=trace"

end Verbosity

structure RunContext where
  mode : RunMode
  verbosity : Verbosity

end FleetUpgrade
