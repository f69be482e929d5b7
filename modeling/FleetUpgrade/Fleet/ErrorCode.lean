import FleetUpgrade.Fleet.Session

/-!
# Codes of errors

An error that was caused by another one stands around it as a layer. Programs tell errors apart by
the names of their layers, from the outermost to the innermost, and people by the text.
-/

namespace FleetUpgrade

/-- Errors that are known by the names of their layers and by a text. -/
class CodedError (ε : Type) where
  /-- names of the layers, outermost first -/
  layers : ε → List String
  /-- what went wrong, without what the system adds to it -/
  message : ε → String

/-- The code of an error: its layers with dots between them. -/
def CodedError.code {ε : Type} [CodedError ε] (e : ε) : String :=
  Text.join "." (CodedError.layers e)

instance : CodedError FieldError where
  layers
    | .missing _ => ["Missing"]
    | .wrongKind .. => ["WrongKind"]
    | .invalidPath _ => ["InvalidPath"]
  message := FieldError.message

instance : CodedError StoreError where
  layers
    | .preconditionFailed .. => ["PreconditionFailed"]
    | .notFound .. => ["NotFound"]
    | .read .. => ["Read"]
    | .invalidOperation .. => ["InvalidOperation"]
    | .unavailable _ => ["Unavailable"]
    | .io _ => ["Io"]
    | .snapshot => ["Snapshot"]
  message := StoreError.message

instance : CodedError RunnerError where
  layers
    | .store e => "Store" :: CodedError.layers e
    | .audit => ["Audit", "Io"]
    | .file _ => ["File"]
  message := RunnerError.message

instance : CodedError StepError where
  layers
    | .read _ e => "Read" :: CodedError.layers e
    | .field _ _ e => "Field" :: CodedError.layers e
    | .unsupportedCloud _ => ["UnsupportedCloud"]
    | .missingState _ => ["MissingState"]
    | .unexpected .. => ["Unexpected"]
    | .io _ => ["Io"]
  message := StepError.message

instance : CodedError MigrationError where
  layers
    | .precheckFailed .. => ["PrecheckFailed"]
    | .precheckRead _ e => "PrecheckRead" :: CodedError.layers e
    | .resume e => "Resume" :: CodedError.layers e
    | .step _ e => "Step" :: CodedError.layers e
    | .apply _ e => "Apply" :: CodedError.layers e
  message := MigrationError.message

instance : CodedError InventoryError where
  layers
    | .store e => "Store" :: CodedError.layers e
    | .field _ _ e => "Field" :: CodedError.layers e
    | .noControllerMachine => ["NoControllerMachine"]
    | .missingControllerUuid => ["MissingControllerUuid"]
  message := InventoryError.message

instance : CodedError ConfigError where
  layers
    | .read _ => ["ConfigRead"]
    | .parse => ["Parse"]
    | .empty _ => ["Invalid"]
  message := ConfigError.message

instance : CodedError UsageError where
  layers _ := ["Usage"]
  message := UsageError.message

instance : CodedError CommandError where
  layers
    | .usage e => CodedError.layers e
    | .config e => "Config" :: CodedError.layers e
    | .store e => "Store" :: CodedError.layers e
    | .inventory e => "Inventory" :: CodedError.layers e
    | .migration e => "Migration" :: CodedError.layers e
    | .targetsFailed _ => ["Dispatch", "TargetsFailed"]
    | .output => ["Output", "Io"]
  message := CommandError.message

instance : CodedError TransportError where
  layers
    | .unreachable .. => ["Unreachable"]
    | .launch .. => ["Launch"]
    | .copy .. => ["Copy"]
    | .aborted _ => ["Aborted"]
  message := TransportError.message

end FleetUpgrade
