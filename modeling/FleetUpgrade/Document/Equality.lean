import FleetUpgrade.Document.Basic

/-!
# Equality of documents

Two documents are the same when they have equally many fields and every field of one has the same
value in the other; the order of fields does not matter, the order of list items does. A whole
number is never the same as a binary64 number.
-/

namespace FleetUpgrade

namespace Value

mutual

def same : Value → Value → Bool
  | .null, .null => true
  | .bool a, .bool b => a == b
  | .int a, .int b => a == b
  | .float a, .float b => a.equal b
  | .string a, .string b => a == b
  | .list xs, .list ys => sameItems xs ys
  | .document fs, .document gs => fs.length == gs.length && sameFields fs gs
  | _, _ => false

def sameItems : List Value → List Value → Bool
  | [], [] => true
  | x :: xs, y :: ys => x.same y && sameItems xs ys
  | _, _ => false

/-- Whether every field of the first list has the same value in the second. -/
def sameFields : List (String × Value) → Fields → Bool
  | [], _ => true
  | (name, x) :: fs, gs =>
      (match Fields.get? gs name with
        | some y => x.same y
        | none => false) && sameFields fs gs

end

end Value

def Document.same (d e : Document) : Bool :=
  (Value.ofDocument d).same (Value.ofDocument e)

end FleetUpgrade
