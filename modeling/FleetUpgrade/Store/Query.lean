import FleetUpgrade.Document.Equality
import FleetUpgrade.Document.Path

/-!
# Queries

A query asks that certain places of a document hold certain values. The query that asks nothing
matches every document.
-/

namespace FleetUpgrade

/-- Paths with the value each of them must hold. -/
structure Query where
  conditions : List (String × Value)

namespace Query

def all : Query :=
  ⟨[]⟩

def asking (q : Query) (path : String) (value : Value) : Query :=
  ⟨q.conditions ++ [(path, value)]⟩

def isAll (q : Query) : Bool :=
  q.conditions.isEmpty

def accepts (q : Query) (d : Document) : Bool :=
  q.conditions.all fun condition =>
    match d.getPath condition.1 with
    | some value => value.same condition.2
    | none => false

end Query

end FleetUpgrade
