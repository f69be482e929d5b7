import FleetUpgrade.Plan.Step

/-!
# Field edits

An edit turns each document of its collections into one update, put together from a list of
actions on fields. A field that is renamed is always cleared, and a field that is missing is an
error.
-/

namespace FleetUpgrade

inductive FieldAction where
  /-- set `target` from `source`, then clear `source` -/
  | rename (source target : String)
  /-- set `target` from `source` -/
  | copy (source target : String)
  /-- rename a field inside every element of a list of documents -/
  | renameEach (list source target : String)
  | unset (field : String)
  | set (field : String) (value : Value)

namespace FieldAction

/-- Rename a field inside the elements of a list from an index on. -/
def renameElements (list source target : String) :
    Nat → List Value → Update → Except FieldError Update
  | _, [], u => .ok u
  | index, .document fields :: rest, u =>
      match Document.require ⟨fields⟩ source with
      | .error e => .error e
      | .ok value =>
          let place := list ++ "." ++ toString index ++ "."
          renameElements list source target (index + 1) rest
            ((u.setting (place ++ target) value).clearing (place ++ source))
  | index, element :: _, _ =>
      .error (.wrongKind (list ++ "." ++ toString index) .document element.kind)

/-- Add an action to an update; the values come from the document as it is stored. -/
def extend (action : FieldAction) (d : Document) (u : Update) : Except FieldError Update :=
  match action with
  | .rename source target =>
      (d.require source).map fun value => (u.setting target value).clearing source
  | .copy source target => (d.require source).map fun value => u.setting target value
  | .renameEach list source target =>
      match d.getList list with
      | .error e => .error e
      | .ok items => renameElements list source target 0 items u
  | .unset field => .ok (u.clearing field)
  | .set field value => .ok (u.setting field value)

end FieldAction

/-- Actions on every document of some collections. -/
structure FieldEdit where
  name : String
  description : String
  collections : List String
  actions : List FieldAction

namespace FieldEdit

def ofCollection (name collection : String) (actions : List FieldAction) : FieldEdit :=
  ⟨name, "Updating " ++ collection, [collection], actions⟩

/-- Add actions to an update in order, up to the first error. -/
def extendAll (d : Document) : List FieldAction → Update → Except FieldError Update
  | [], u => .ok u
  | action :: actions, u =>
      match action.extend d u with
      | .error e => .error e
      | .ok u' => extendAll d actions u'

def updateFor (r : FieldEdit) (collection : String) (d : Document) :
    Except StepError Operation :=
  match scannedId collection d with
  | .error e => .error e
  | .ok id =>
      (inDocument collection id (extendAll d r.actions .empty)).map fun u =>
        .update collection id u

def plan (r : FieldEdit) (view : StoreView) : Except StepError Transaction :=
  (r.collections.mapM fun collection =>
    view.planEach collection fun d => (r.updateFor collection d).map fun op => [op]).map
      List.flatten

def step (r : FieldEdit) : Step :=
  .ofTransaction r.name r.description r.plan

end FieldEdit

end FleetUpgrade
