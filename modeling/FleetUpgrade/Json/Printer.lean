import FleetUpgrade.Json.Basic
import FleetUpgrade.Text.Hex

/-!
# Writing JSON

The compact form has no blanks. The indented form puts every item and field on a line of its
own, two spaces deeper than what holds it, and a space after each colon; an empty array or object
stays on its line. Strings escape the double quote, the backslash and the controls. What is
garbled is written as a lone half of a surrogate pair.
-/

namespace FleetUpgrade.Json

def stringChar (c : Char) : List Char :=
  match c with
  | '"' => ['\\', '"']
  | '\\' => ['\\', '\\']
  | '\x08' => ['\\', 'b']
  | '\x0c' => ['\\', 'f']
  | '\n' => ['\\', 'n']
  | '\r' => ['\\', 'r']
  | '\t' => ['\\', 't']
  | c => if c.toNat < 0x20 then '\\' :: 'u' :: Text.Hex.padded 4 c.toNat else [c]

def stringText (s : String) : List Char :=
  '"' :: (s.toList.flatMap stringChar ++ ['"'])

/-- A string that is no text. -/
def garbledText : List Char :=
  "\"\\ud800\"".toList

mutual

def compactChars : Json → List Char
  | .null => ['n', 'u', 'l', 'l']
  | .bool true => ['t', 'r', 'u', 'e']
  | .bool false => ['f', 'a', 'l', 's', 'e']
  | .number n => n.text
  | .string s => stringText s
  | .array items => '[' :: (compactItems true items ++ [']'])
  | .object fields => '\x7b' :: (compactFields true fields ++ ['\x7d'])
  | .garbled => garbledText

/-- Items separated by commas; `first` tells that no comma is due. -/
def compactItems (first : Bool) : List Json → List Char
  | [] => []
  | item :: items =>
      (if first then [] else [',']) ++ item.compactChars ++ compactItems false items

def compactFields (first : Bool) : List (String × Json) → List Char
  | [] => []
  | (name, item) :: fields =>
      (if first then [] else [',']) ++ stringText name ++ ':' :: item.compactChars ++
        compactFields false fields

end

def newLine (depth : Nat) : List Char :=
  '\n' :: List.replicate (2 * depth) ' '

mutual

/-- The indented form inside `depth` arrays and objects. -/
def indentedChars (depth : Nat) : Json → List Char
  | .null => ['n', 'u', 'l', 'l']
  | .bool true => ['t', 'r', 'u', 'e']
  | .bool false => ['f', 'a', 'l', 's', 'e']
  | .number n => n.text
  | .string s => stringText s
  | .array [] => ['[', ']']
  | .array items => '[' :: (indentedItems (depth + 1) true items ++ newLine depth ++ [']'])
  | .object [] => ['\x7b', '\x7d']
  | .object fields =>
      '\x7b' :: (indentedFields (depth + 1) true fields ++ newLine depth ++ ['\x7d'])
  | .garbled => garbledText

def indentedItems (depth : Nat) (first : Bool) : List Json → List Char
  | [] => []
  | item :: items =>
      (if first then [] else [',']) ++ newLine depth ++ item.indentedChars depth ++
        indentedItems depth false items

def indentedFields (depth : Nat) (first : Bool) : List (String × Json) → List Char
  | [] => []
  | (name, item) :: fields =>
      (if first then [] else [',']) ++ newLine depth ++ stringText name ++ ':' :: ' ' ::
        item.indentedChars depth ++ indentedFields depth false fields

end

def compact (j : Json) : String :=
  String.ofList j.compactChars

def indented (j : Json) : String :=
  String.ofList (j.indentedChars 0)

end FleetUpgrade.Json
