import FleetUpgrade.Operation.Basic
import FleetUpgrade.Document.Path

/-!
# Store errors

A failed demand is told apart from every other failure, so that "the data was not as expected"
never looks like "the store could not be read or written".
-/

namespace FleetUpgrade

inductive Refusal where
  /-- the id of a document never changes -/
  | immutableId
  | field (cause : FieldError)
  deriving DecidableEq

def Refusal.message : Refusal → String
  | .immutableId => "document ids are immutable"
  | .field cause => cause.message

inductive StoreError where
  /-- a demand was not met; nothing of the transaction was applied -/
  | preconditionFailed (collection id : String) (expected : Precondition)
  | notFound (collection id : String)
  | read (collection reason : String)
  | invalidOperation (collection id : String) (cause : Refusal)
  | unavailable (reason : String)
  /-- a file could not be read or written -/
  | io (path : String)
  /-- a text is no snapshot -/
  | snapshot
  deriving DecidableEq

namespace StoreError

def message : StoreError → String
  | .preconditionFailed collection id expected =>
      "precondition failed: " ++ collection ++ "/" ++ id ++ " expected " ++ expected.name
  | .notFound collection id => "document " ++ collection ++ "/" ++ id ++ " not found"
  | .read collection reason => "reading " ++ collection ++ ": " ++ reason
  | .invalidOperation collection id cause =>
      "invalid operation on " ++ collection ++ "/" ++ id ++ ": " ++ cause.message
  | .unavailable reason => "store unavailable: " ++ reason
  | .io path => "snapshot " ++ path
  | .snapshot => "snapshot encoding"

/-- Whether a demand was not met. -/
def isPrecondition : StoreError → Bool
  | .preconditionFailed .. => true
  | _ => false

end StoreError

end FleetUpgrade
