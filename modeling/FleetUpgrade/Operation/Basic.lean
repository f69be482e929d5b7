import FleetUpgrade.Document.Equality

/-!
# Operations

An operation changes one document of one collection, provided that the document is there or not
there as the operation demands. A transaction is a list of operations that are applied together
or not at all.
-/

namespace FleetUpgrade

/-- What an operation demands of its document before the change. -/
inductive Precondition where
  | none
  | mustExist
  | mustNotExist
  deriving DecidableEq

namespace Precondition

/-- Whether the demand is met by a document that is there (`present`) or not. -/
def holds (p : Precondition) (present : Bool) : Bool :=
  match p with
  | .none => true
  | .mustExist => present
  | .mustNotExist => !present

def name : Precondition → String
  | .none => "none"
  | .mustExist => "must-exist"
  | .mustNotExist => "must-not-exist"

def ofName? : String → Option Precondition
  | "none" => some .none
  | "must-exist" => some .mustExist
  | "must-not-exist" => some .mustNotExist
  | _ => Option.none

end Precondition

inductive OperationKind where
  | insert
  | update
  | remove
  deriving DecidableEq

namespace OperationKind

def name : OperationKind → String
  | .insert => "insert"
  | .update => "update"
  | .remove => "remove"

def ofName? : String → Option OperationKind
  | "insert" => some .insert
  | "update" => some .update
  | "remove" => some .remove
  | _ => none

end OperationKind

/-- Changes to fields: first the values to set, in order, then the places to clear, in order. Names
are paths. -/
structure Update where
  set : Document
  unset : List String
  deriving Inhabited

namespace Update

def empty : Update :=
  ⟨.empty, []⟩

def setting (u : Update) (path : String) (value : Value) : Update :=
  { u with set := u.set.insert path value }

def clearing (u : Update) (path : String) : Update :=
  { u with unset := u.unset ++ [path] }

def isEmpty (u : Update) : Bool :=
  u.set.isEmpty && u.unset.isEmpty

end Update

inductive Change where
  /-- put a new document there; its id is the operation's -/
  | insert (body : Document)
  | update (changes : Update)
  | remove

structure Operation where
  collection : String
  id : String
  precondition : Precondition
  change : Change

/-- Operations that are applied together. -/
abbrev Transaction := List Operation

namespace Operation

/-- Insert a document that is not there yet. -/
def insert (collection id : String) (body : Document) : Operation :=
  ⟨collection, id, .mustNotExist, .insert body⟩

/-- Update a document that is there. -/
def update (collection id : String) (changes : Update) : Operation :=
  ⟨collection, id, .mustExist, .update changes⟩

/-- Remove a document that is there. -/
def remove (collection id : String) : Operation :=
  ⟨collection, id, .mustExist, .remove⟩

def kind (op : Operation) : OperationKind :=
  match op.change with
  | .insert _ => .insert
  | .update _ => .update
  | .remove => .remove

/-- Whether two operations are the same; documents in them are compared as documents. -/
def same (a b : Operation) : Bool :=
  a.collection == b.collection && a.id == b.id && a.precondition == b.precondition &&
    match a.change, b.change with
    | .insert d, .insert e => d.same e
    | .update u, .update v => u.set.same v.set && u.unset == v.unset
    | .remove, .remove => true
    | _, _ => false

end Operation

def Transaction.same : Transaction → Transaction → Bool
  | [], [] => true
  | a :: as, b :: bs => a.same b && Transaction.same as bs
  | _, _ => false

end FleetUpgrade
