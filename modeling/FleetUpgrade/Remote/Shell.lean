import FleetUpgrade.Text.Search

/-!
# Words of a shell

A word between single quotes stands for itself up to the next single quote. A single quote inside
a word is written by leaving the quotes, escaping it, and entering them again.
-/

namespace FleetUpgrade.Shell

/-- A character between single quotes. -/
def quotedChar (c : Char) : List Char :=
  if c = '\x27' then ['\x27', '\\', '\x27', '\x27'] else [c]

/-- A text as one word. -/
def quoteChars (cs : List Char) : List Char :=
  '\x27' :: (cs.flatMap quotedChar ++ ['\x27'])

def quote (text : String) : String :=
  String.ofList (quoteChars text.toList)

end FleetUpgrade.Shell
