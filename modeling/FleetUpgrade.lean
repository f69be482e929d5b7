import FleetUpgrade.Audit.Log
import FleetUpgrade.Audit.Record
import FleetUpgrade.Binary64.Basic
import FleetUpgrade.Binary64.Shortest
import FleetUpgrade.Binary64.Text
import FleetUpgrade.CommandLine.Arguments
import FleetUpgrade.CommandLine.Help
import FleetUpgrade.CommandLine.Run
import FleetUpgrade.Decimal.Digit
import FleetUpgrade.Digest.Sha256
import FleetUpgrade.Disk.Basic
import FleetUpgrade.Disk.FilePath
import FleetUpgrade.Document.Basic
import FleetUpgrade.Document.Equality
import FleetUpgrade.Document.Json
import FleetUpgrade.Document.Path
import FleetUpgrade.Document.Text
import FleetUpgrade.Fleet.Commands
import FleetUpgrade.Fleet.Config
import FleetUpgrade.Fleet.ErrorCode
import FleetUpgrade.Fleet.Inventory
import FleetUpgrade.Fleet.Scripts
import FleetUpgrade.Fleet.Session
import FleetUpgrade.Json.Basic
import FleetUpgrade.Json.Numeral
import FleetUpgrade.Json.Printer
import FleetUpgrade.Json.Reader
import FleetUpgrade.Json.Record
import FleetUpgrade.Json.Token
import FleetUpgrade.Main
import FleetUpgrade.Operation.Basic
import FleetUpgrade.Operation.Json
import FleetUpgrade.Operation.Text
import FleetUpgrade.Plan.Cloud
import FleetUpgrade.Plan.DocId
import FleetUpgrade.Plan.FieldEdit
import FleetUpgrade.Plan.Rekey
import FleetUpgrade.Plan.Step
import FleetUpgrade.Proofs.AtomicWrite
import FleetUpgrade.Proofs.FailedApply
import FleetUpgrade.Proofs.Footprint
import FleetUpgrade.Proofs.Keyed
import FleetUpgrade.Proofs.LawfulStore
import FleetUpgrade.Proofs.LostCursors
import FleetUpgrade.Proofs.Moves
import FleetUpgrade.Proofs.Precheck
import FleetUpgrade.Proofs.PreviewParity
import FleetUpgrade.Proofs.Recovery
import FleetUpgrade.Proofs.RunInvariants
import FleetUpgrade.Proofs.UpgradeFootprints
import FleetUpgrade.Proofs.UpgradedSchema
import FleetUpgrade.Proofs.WriteFailures
import FleetUpgrade.Remote.Dispatch
import FleetUpgrade.Remote.Report
import FleetUpgrade.Remote.Result
import FleetUpgrade.Remote.Script
import FleetUpgrade.Remote.Shell
import FleetUpgrade.Remote.Ssh
import FleetUpgrade.Remote.Transport
import FleetUpgrade.Run.Description
import FleetUpgrade.Run.Migration
import FleetUpgrade.Run.Mode
import FleetUpgrade.Run.Runner
import FleetUpgrade.Sample.Controller
import FleetUpgrade.Snapshot.Basic
import FleetUpgrade.Snapshot.Json
import FleetUpgrade.Store.Basic
import FleetUpgrade.Store.Error
import FleetUpgrade.Store.Faulty
import FleetUpgrade.Store.File
import FleetUpgrade.Store.Memory
import FleetUpgrade.Store.Query
import FleetUpgrade.Table
import FleetUpgrade.Text.Blank
import FleetUpgrade.Text.Hex
import FleetUpgrade.Text.Printable
import FleetUpgrade.Text.Quoted
import FleetUpgrade.Text.Search
import FleetUpgrade.Text.Utf8
import FleetUpgrade.Toml.Assignments
import FleetUpgrade.Toml.Text
import FleetUpgrade.Upgrade.Applications
import FleetUpgrade.Upgrade.Controller
import FleetUpgrade.Upgrade.Names
import FleetUpgrade.Upgrade.Schema
import FleetUpgrade.Upgrade.ServiceTag
import FleetUpgrade.Upgrade.Steps
import FleetUpgrade.Upgrade.Tools
import FleetUpgrade.Proofs.StepBoundaries
import FleetUpgrade.Proofs.AuditReplay
import FleetUpgrade.Proofs.PreviewPurity
import FleetUpgrade.Proofs.UpgradedOnce
import FleetUpgrade.Proofs.KeyedCalls
import FleetUpgrade.Proofs.DispatchRuns
import FleetUpgrade.Proofs.JsonText
import FleetUpgrade.Proofs.ReopenedStores
import FleetUpgrade.Proofs.DecodedSnapshots
import FleetUpgrade.Proofs.CopiedDocuments
import FleetUpgrade.Proofs.Relocations
import FleetUpgrade.Proofs.Rekeying
import FleetUpgrade.Proofs.ReferenceCounts
import FleetUpgrade.Proofs.ServicesMoved
import FleetUpgrade.Proofs.CommandRuns
import FleetUpgrade.Proofs.UpgradedFleet
import FleetUpgrade.Proofs.UnscopedImages
import FleetUpgrade.Proofs.ScopedIds
import FleetUpgrade.Proofs.Reordering
import FleetUpgrade.Proofs.RegisteredIds
import FleetUpgrade.Proofs.PathSteps
import FleetUpgrade.Proofs.PathFrames
import FleetUpgrade.Proofs.FieldActions
import FleetUpgrade.Proofs.ActionsInOrder
import FleetUpgrade.Proofs.RenamedElements
import FleetUpgrade.Proofs.DemandsInTurn
import FleetUpgrade.Proofs.ListedMachines
import FleetUpgrade.Proofs.EchoedCommands
import FleetUpgrade.Proofs.RenderedScripts
import FleetUpgrade.Proofs.ShellWords
import FleetUpgrade.Proofs.ReportLines
import FleetUpgrade.Proofs.AuditLines
import FleetUpgrade.Proofs.WrittenPaths
import FleetUpgrade.Proofs.ClearedPaths
import FleetUpgrade.Proofs.EqualDocuments
import FleetUpgrade.Proofs.OrderedFields
import FleetUpgrade.Proofs.ServiceNames
