import FleetUpgrade.Run.Runner
import FleetUpgrade.Upgrade.Steps

/-!
# Migrations

A migration checks that certain collections are empty, resumes the journal unless told not to, and
then takes its steps in order. The plan of each step is carried out before the next step is
planned: files first, then the transaction, then the drops. The first error ends the run.
-/

namespace FleetUpgrade

/-- Steps in order, and what is done before them. -/
structure Migration where
  /-- collections that must be empty -/
  precheck : List String
  /-- whether the journal is resumed before the steps -/
  resumes : Bool
  steps : List Step

inductive MigrationError where
  /-- a collection that must be empty has documents -/
  | precheckFailed (collection : String) (count : Nat)
  | precheckRead (collection : String) (cause : StoreError)
  | resume (cause : RunnerError)
  /-- a step has no plan -/
  | step (name : String) (cause : StepError)
  /-- the plan of a step could not be carried out -/
  | apply (name : String) (cause : RunnerError)
  deriving DecidableEq

namespace MigrationError

def message : MigrationError → String
  | .precheckFailed collection count =>
      Text.quoted collection ++ " has " ++ toString count ++ " documents, shouldn't have data"
  | .precheckRead collection cause =>
      "getting row count for " ++ Text.quoted collection ++ ": " ++ cause.message
  | .resume cause => "resuming pending transactions: " ++ cause.message
  | .step name cause => "step " ++ name ++ ": " ++ cause.message
  | .apply name cause => "step " ++ name ++ ": " ++ cause.message

/-- The step that failed, if it was one. -/
def stepName? : MigrationError → Option String
  | .step name _ => some name
  | .apply name _ => some name
  | _ => none

/-- Whether a demand of an operation was not met. -/
def isPrecondition : MigrationError → Bool
  | .apply _ cause => cause.isPrecondition
  | .resume cause => cause.isPrecondition
  | _ => false

end MigrationError

structure StepReport where
  name : String
  operations : Nat
  droppedCollections : List String
  files : Nat
  deriving DecidableEq

structure MigrationSummary where
  mode : RunMode
  steps : List StepReport
  deriving DecidableEq

namespace MigrationSummary

def totalOperations (s : MigrationSummary) : Nat :=
  s.steps.foldl (fun total step => total + step.operations) 0

/-- The text of a summary: a line for each step and the total. -/
def text (s : MigrationSummary) : String :=
  String.join (s.steps.map fun step =>
      "  " ++ step.name ++ ": " ++ toString step.operations ++ " operations\n") ++
    toString s.totalOperations ++
    (if s.mode.isLive then " operations applied" else " operations would be applied")

end MigrationSummary

structure RunOutcome (σ : Type) (α : Type := AuditLog) where
  result : Except MigrationError (List StepReport)
  vars : Variables
  site : Site σ α

namespace StepPlan

def report (plan : StepPlan) (name : String) : StepReport :=
  ⟨name, plan.transaction.length, plan.droppedCollections, plan.files.length⟩

def execute {σ α : Type} [DocumentStore σ] [AuditSink α] (plan : StepPlan) (mode : RunMode)
    (site : Site σ α) : Except RunnerError Unit × Site σ α :=
  match site.forEach (Site.writeFile mode) plan.files with
  | (.error e, site) => (.error e, site)
  | (.ok _, site) =>
      match site.apply mode plan.transaction with
      | (.error e, site) => (.error e, site)
      | (.ok _, site) => site.forEach (Site.drop mode) plan.droppedCollections

end StepPlan

namespace Migration

variable {σ α : Type} [DocumentStore σ] [AuditSink α]

/-- Check that collections are empty, up to the first that is not. -/
def checkEmpty (view : StoreView) : List String → Except MigrationError Unit
  | [] => .ok ()
  | collection :: collections =>
      match view.count collection with
      | .error e => .error (.precheckRead collection e)
      | .ok 0 => checkEmpty view collections
      | .ok n => .error (.precheckFailed collection n)

/-- Take steps in order, each planned on what the steps before it left. -/
def takeSteps (mode : RunMode) : List Step → Variables → Site σ α → RunOutcome σ α
  | [], vars, site => ⟨.ok [], vars, site⟩
  | step :: steps, vars, site =>
      match step.plan (DocumentStore.view site.store) site.disk vars with
      | .error e => ⟨.error (.step step.name e), vars, site⟩
      | .ok (plan, vars) =>
          match plan.execute mode site with
          | (.error e, site) => ⟨.error (.apply step.name e), vars, site⟩
          | (.ok _, site) =>
              let rest := takeSteps mode steps vars site
              { rest with result := rest.result.map (plan.report step.name :: ·) }

/-- What comes before the steps: the check, and the journal if it is resumed. -/
def prepare (m : Migration) (mode : RunMode) (site : Site σ α) :
    Except MigrationError Unit × Site σ α :=
  match checkEmpty (DocumentStore.view site.store) m.precheck with
  | .error e => (.error e, site)
  | .ok _ =>
      match (if m.resumes then site.resume mode else (.ok (), site)) with
      | (.error e, site) => (.error (.resume e), site)
      | (.ok _, site) => (.ok (), site)

def run (m : Migration) (mode : RunMode) (vars : Variables) (site : Site σ α) : RunOutcome σ α :=
  match m.prepare mode site with
  | (.error e, site) => ⟨.error e, vars, site⟩
  | (.ok _, site) => takeSteps mode m.steps vars site

def upgrade (options : UpgradeOptions) : Migration :=
  ⟨upgradePrecheck, true, upgradeSteps options⟩

/-- The clean-up of a store before its upgrade; the journal is left alone. -/
def cleanup : Migration :=
  ⟨[], false, cleanupSteps⟩

end Migration

end FleetUpgrade
