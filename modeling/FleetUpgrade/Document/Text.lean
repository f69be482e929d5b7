import FleetUpgrade.Document.Basic
import FleetUpgrade.Binary64.Text
import FleetUpgrade.Text.Quoted

/-!
# Documents in messages

In messages a document is written as its names and values in braces, a list in brackets, and a
string quoted; names are written as they are.
-/

namespace FleetUpgrade

namespace Value

mutual

def textChars : Value → List Char
  | .null => ['n', 'u', 'l', 'l']
  | .bool true => ['t', 'r', 'u', 'e']
  | .bool false => ['f', 'a', 'l', 's', 'e']
  | .int i => (toString i.toInt).toList
  | .float x => x.text
  | .string s => (Text.quoted s).toList
  | .list items => '[' :: (textItems true items ++ [']'])
  | .document fields => '\x7b' :: (textFields true fields ++ ['\x7d'])

/-- Items with a comma and a space between them; `first` tells that none is due. -/
def textItems (first : Bool) : List Value → List Char
  | [] => []
  | item :: items => (if first then [] else [',', ' ']) ++ item.textChars ++ textItems false items

def textFields (first : Bool) : List (String × Value) → List Char
  | [] => []
  | (name, value) :: fields =>
      (if first then [] else [',', ' ']) ++ name.toList ++ ':' :: ' ' :: value.textChars ++
        textFields false fields

end

def text (v : Value) : String :=
  String.ofList v.textChars

end Value

def Document.text (d : Document) : String :=
  (Value.ofDocument d).text

end FleetUpgrade
