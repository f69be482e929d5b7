import FleetUpgrade.Remote.Dispatch
import FleetUpgrade.Run.Migration

/-!
# Descriptions for diagnostics

A description is the name of what it describes with some of its fields in braces. Two points
stand for the fields that are not shown.
-/

namespace FleetUpgrade

namespace Description

/-- The description of a thing with shown fields; `more` tells that others are not shown. -/
def record (name : String) (fields : List (String × String)) (more : Bool) : String :=
  let shown := fields.map fun field => field.1 ++ ": " ++ field.2
  name ++ " \x7b " ++ Text.join ", " (if more then shown ++ [".."] else shown) ++ " \x7d"

def texts (items : List String) : String :=
  "[" ++ Text.join ", " (items.map Text.quoted) ++ "]"

def flag (b : Bool) : String :=
  if b then "true" else "false"

end Description

def RunMode.description : RunMode → String
  | .preview => "Preview"
  | .live => "Live"

def Verbosity.description : Verbosity → String
  | .normal => "Normal"
  | .debug => "Debug"
  | .trace => "Trace"

def RunContext.description (c : RunContext) : String :=
  Description.record "Context"
    [("mode", c.mode.description), ("verbosity", c.verbosity.description)] true

def RunContext.runnerDescription (c : RunContext) : String :=
  Description.record "TransactionRunner" [("context", c.description)] true

def Migration.description (m : Migration) (c : RunContext) : String :=
  Description.record "MigrationEngine"
    [("runner", c.runnerDescription),
      ("precheck", Description.record "Precheck"
        [("empty_collections", Description.texts m.precheck)] false),
      ("resume", Description.flag m.resumes),
      ("steps", Description.texts (m.steps.map Step.name))] false

def AuditLog.teeDescription (logs : Nat) : String :=
  Description.record "TeeAuditSink" [("sinks", toString logs)] false

def Dispatcher.description (d : Dispatcher) : String :=
  Description.record "Dispatcher" [("user", Text.quoted d.user)] true

def Cursor.descriptionOf (collection : String) : String :=
  Description.record "Scan" [("collection", Text.quoted collection)] true

end FleetUpgrade
