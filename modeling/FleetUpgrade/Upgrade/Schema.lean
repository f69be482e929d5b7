import FleetUpgrade.Plan.DocId
import FleetUpgrade.Plan.Step
import FleetUpgrade.Upgrade.Names

/-!
# Changes to machines, image metadata and provider ids

Machines lose a retired type of container, image metadata loses its model, and the ids that
providers gave lose their model's UUID and are registered with it instead. Pending cleanups are
thrown away.
-/

namespace FleetUpgrade

open CollectionName (machines cloudImageMetadata providerIds cleanups)

namespace MachineContainers

/-- The type of container that machines no longer support. -/
def retired : String := "lxc"

/-- The operations for one machine; one that lists no containers is left alone. -/
def editFor (d : Document) : Except StepError Transaction := do
  let id ← scannedId machines d
  if d.contains "supportedcontainers" then
    let containers ← inDocument machines id (d.getList "supportedcontainers")
    let kept := containers.filter fun container => container.string? ≠ some retired
    return [.update machines id (Update.empty.setting "supportedcontainers" (.list kept))]
  else return []

def step : Step :=
  .ofTransaction "machines" "Updating machines" fun view => view.planEach machines editFor

end MachineContainers

namespace ImageMetadata

/-- The operations for one document; one without a scope is left alone. -/
def move (d : Document) : Except StepError Transaction := do
  let oldId ← scannedId cloudImageMetadata d
  match DocId.split? oldId with
  | none => return []
  | some (_, localPart) =>
      return relocate cloudImageMetadata oldId cloudImageMetadata localPart
        (d.withoutBookkeeping.remove "model-uuid")

def step : Step :=
  .ofTransaction "cloud-image-metadata" "Updating cloudimagemetadata" fun view =>
    view.planEach cloudImageMetadata move

end ImageMetadata

namespace ProviderIds

def unscoped? (modelUuid providerId : String) : Option String :=
  Text.stripLead (modelUuid ++ ":") providerId

/-- The operations for one document; one whose provider id does not name its model is left alone. -/
def editFor (collection kind : String) (d : Document) : Except StepError Transaction := do
  let id ← scannedId collection d
  let modelUuid ← inDocument collection id (d.getString "model-uuid")
  let providerId ← inDocument collection id (d.getString? "providerid")
  match providerId.bind (unscoped? modelUuid) with
  | none => return []
  | some rest =>
      return [.update collection id (Update.empty.setting "providerid" rest),
        .insert providerIds (modelUuid ++ ":" ++ kind ++ ":" ++ rest)
          (Document.empty.insert "model-uuid" modelUuid)]

/-- Take the models' UUIDs out of the provider ids of a collection and register the ids. -/
def step (collection kind : String) : Step :=
  .ofTransaction ("provider-ids-" ++ collection) ("Updating " ++ collection) fun view =>
    view.planEach collection (editFor collection kind)

end ProviderIds

namespace Cleanups

/-- The operation for one cleanup. Nothing is demanded, since the controller may finish a cleanup
at any time. -/
def discard (d : Document) : Except StepError Transaction := do
  let id ← scannedId cleanups d
  let _ ← inDocument cleanups id (d.getString? "kind")
  let _ ← inDocument cleanups id (d.getString? "prefix")
  return [⟨cleanups, id, .none, .remove⟩]

def step : Step :=
  .ofTransaction "cleanups" "Cleaning cleanups" fun view => view.planEach cleanups discard

end Cleanups

end FleetUpgrade
