import FleetUpgrade.Plan.DocId
import FleetUpgrade.Plan.Step

/-!
# Rekeying

A rule replaces the start of the local part of scoped ids. Documents whose ids the rule selects
are moved to their new ids; a field may be set to the new local part, and fields may be
left behind.
-/

namespace FleetUpgrade

/-- A replacement of the start of local parts. -/
structure RekeyRule where
  oldStart : String
  newStart : String
  /-- the field that repeats the local part, if there is one -/
  keyField : Option String
  /-- fields that are left behind -/
  stripFields : List String

namespace RekeyRule

/-- The new id of an id that the rule selects. -/
def rekey? (rule : RekeyRule) (id : String) : Option String :=
  match DocId.split? id with
  | none => none
  | some (scope, localPart) =>
      (Text.stripLead rule.oldStart localPart).map fun rest =>
        scope ++ ":" ++ rule.newStart ++ rest

def body (rule : RekeyRule) (newId : String) (d : Document) : Document :=
  let copy := d.withoutBookkeeping
  let keyed :=
    match rule.keyField with
    | some field => copy.replace field (DocId.localPart newId)
    | none => copy
  keyed.without rule.stripFields

/-- The move of a document, or nothing if the rule does not select it. A new id must have a local
part. -/
def move? (rule : RekeyRule) (collection : String) (d : Document) :
    Except StepError (Option Transaction) :=
  match scannedId collection d with
  | .error e => .error e
  | .ok oldId =>
      match rule.rekey? oldId with
      | none => .ok none
      | some newId =>
          if (DocId.split? newId).isNone then
            .error (.unexpected collection oldId (.emptyLocalPart newId))
          else .ok (some (relocate collection oldId collection newId (rule.body newId d)))

def plan (rule : RekeyRule) (collection : String) (view : StoreView) :
    Except StepError Transaction :=
  view.planEach collection fun d => (rule.move? collection d).map fun move => move.getD []

/-- The step that rekeys a collection; it is named after the collection. -/
def step (rule : RekeyRule) (collection : String) : Step :=
  .ofTransaction ("rekey-" ++ collection) ("Updating " ++ collection) (rule.plan collection)

end RekeyRule

end FleetUpgrade
