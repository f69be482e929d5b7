import FleetUpgrade.Digest.Sha256
import FleetUpgrade.Plan.Step
import FleetUpgrade.Upgrade.Names

/-!
# Metadata of the agents' tools

The archive of the tools is registered by its version, size and digest.
-/

namespace FleetUpgrade

def toolsMetadata (version : String) (archive : ByteArray) : Document :=
  .ofList
    [("version", .string version), ("size", .int (Int64.ofNat archive.size)),
      ("sha256", .string (Digest.Sha256.hexDigest archive.toList))]

/-- Register the archive in a file as the tools of a version. -/
def registerTools (path version : String) : Step :=
  ⟨"tools-metadata", "Adding 2.0 agent binaries", fun _ disk vars =>
    match disk.read? path with
    | none => .error (.io path)
    | some archive =>
        .ok (StepPlan.ofTransaction
          [.insert CollectionName.toolsMetadata version (toolsMetadata version archive)], vars)⟩

end FleetUpgrade
