import FleetUpgrade.Operation.Basic
import FleetUpgrade.Document.Text
import FleetUpgrade.Text.Search

/-!
# Operations in messages

An operation is written as its kind, its document, its demand in brackets, and its change.
-/

namespace FleetUpgrade

/-- The text of a change after the demand; a removal adds nothing. -/
def Change.text : Change → String
  | .insert body => " " ++ body.text
  | .update changes =>
      (if changes.set.isEmpty then "" else " set " ++ changes.set.text) ++
        (if changes.unset.isEmpty then "" else " unset [" ++ Text.join ", " changes.unset ++ "]")
  | .remove => ""

def Operation.text (op : Operation) : String :=
  op.kind.name ++ " " ++ op.collection ++ "/" ++ op.id ++ " [" ++ op.precondition.name ++ "]" ++
    op.change.text

end FleetUpgrade
