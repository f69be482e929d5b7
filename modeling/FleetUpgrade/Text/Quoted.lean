import FleetUpgrade.Text.Hex
import FleetUpgrade.Text.Printable

/-!
# Quoted text in messages

A quoted text stands between double quotes. A double quote and a backslash are escaped by a
backslash, four controls have short escapes, and any other hidden character is written as its
hexadecimal code point in braces.
-/

namespace FleetUpgrade.Text

def quotedChar (c : Char) : List Char :=
  match c with
  | '"' => ['\\', '"']
  | '\\' => ['\\', '\\']
  | '\t' => ['\\', 't']
  | '\r' => ['\\', 'r']
  | '\n' => ['\\', 'n']
  | '\x00' => ['\\', '0']
  | c =>
      if isShown c then [c]
      else ['\\', 'u', Char.ofNat 0x7b] ++ Hex.digits c.toNat ++ [Char.ofNat 0x7d]

/-- The text between double quotes. -/
def quoted (text : String) : String :=
  String.ofList ('"' :: (text.toList.flatMap quotedChar ++ ['"']))

end FleetUpgrade.Text
