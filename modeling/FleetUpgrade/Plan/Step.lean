import FleetUpgrade.Store.Basic

/-!
# Migration steps

A step computes, from a view of the store and of the disk, a plan: one transaction, the local
files to write before it, and the collections to drop after it. Computing a plan changes nothing
but the variables that later steps read.
-/

namespace FleetUpgrade

structure PlannedFile where
  path : String
  contents : String
  mode : Nat
  deriving DecidableEq

def PlannedFile.ownerOnly (path contents : String) : PlannedFile :=
  ⟨path, contents, 0o600⟩

structure StepPlan where
  transaction : Transaction
  droppedCollections : List String
  files : List PlannedFile

def StepPlan.ofTransaction (ops : Transaction) : StepPlan :=
  ⟨ops, [], []⟩

/-- What earlier steps found or made up for later ones. -/
structure Variables where
  controllerUuid : String
  controllerModelUuid : Option String
  cloud : Option String
  owner : Option String
  credential : Option String
  deriving DecidableEq

/-- The variables at the start of a run, when only the new controller's UUID is known. -/
def Variables.ofUuid (uuid : String) : Variables :=
  ⟨uuid, none, none, none, none⟩

/-- What is wrong with the contents of a document. -/
inductive Oddity where
  | emptyLocalPart (newId : String)
  | unscopedId
  | leaseAlreadyMoved
  deriving DecidableEq

def Oddity.message : Oddity → String
  | .emptyLocalPart newId => "rekeyed id " ++ Text.quoted newId ++ " has an empty local part"
  | .unscopedId => "failed to split id"
  | .leaseAlreadyMoved => "lease already has application-leadership"

inductive StepError where
  | read (collection : String) (cause : StoreError)
  /-- a document lacks a field, or the field has another kind -/
  | field (collection id : String) (cause : FieldError)
  | unsupportedCloud (tag : String)
  /-- an earlier step should have set a variable -/
  | missingState (what : String)
  | unexpected (collection id : String) (oddity : Oddity)
  /-- a local file cannot be read -/
  | io (path : String)
  deriving DecidableEq

def StepError.message : StepError → String
  | .read collection cause => "failed to read " ++ collection ++ ": " ++ cause.message
  | .field collection id cause => collection ++ "/" ++ id ++ ": " ++ cause.message
  | .unsupportedCloud tag => "unsupported cloud type " ++ Text.quoted tag
  | .missingState what => "missing " ++ what ++ "; has the controller step run?"
  | .unexpected collection id oddity => collection ++ "/" ++ id ++ ": " ++ oddity.message
  | .io path => "reading " ++ path

namespace Variables

def theCloud (v : Variables) : Except StepError String :=
  match v.cloud with
  | some cloud => .ok cloud
  | none => .error (.missingState "cloud")

def theCredential (v : Variables) : Except StepError String :=
  match v.credential with
  | some credential => .ok credential
  | none => .error (.missingState "cloud credential")

end Variables

structure Step where
  name : String
  /-- the line that announces the step -/
  description : String
  plan : StoreView → Disk → Variables → Except StepError (StepPlan × Variables)

/-- A field error with the document it was found in. -/
def inDocument {α : Type} (collection id : String) (result : Except FieldError α) :
    Except StepError α :=
  match result with
  | .ok a => .ok a
  | .error e => .error (.field collection id e)

/-- The id of a scanned document; one without an id is named by a question mark. -/
def scannedId (collection : String) (d : Document) : Except StepError String :=
  inDocument collection "?" d.id

namespace StoreView

def fetch (view : StoreView) (collection id : String) : Except StepError Document :=
  match view.find collection id with
  | .ok d => .ok d
  | .error e => .error (.read collection e)

/-- Read off every document of a collection in turn; a cursor that fails, fails the whole. -/
def readEach {α : Type} (view : StoreView) (collection : String)
    (readOne : Document → Except StepError α) : Except StepError (List α) :=
  match view.scan collection .all with
  | .error e => .error (.read collection e)
  | .ok cursor =>
      match cursor.documents.mapM readOne with
      | .error e => .error e
      | .ok parts =>
          match cursor.failure with
          | some e => .error (.read collection e)
          | none => .ok parts

def planEach (view : StoreView) (collection : String)
    (planOne : Document → Except StepError Transaction) : Except StepError Transaction :=
  (view.readEach collection planOne).map List.flatten

end StoreView

/-- A step whose plan is a transaction that depends on the store alone. -/
def Step.ofTransaction (name description : String)
    (plan : StoreView → Except StepError Transaction) : Step :=
  ⟨name, description, fun view _ vars =>
    (plan view).map fun ops => (StepPlan.ofTransaction ops, vars)⟩

end FleetUpgrade
