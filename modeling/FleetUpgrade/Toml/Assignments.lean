import FleetUpgrade.Text.Search
import FleetUpgrade.Toml.Text

/-!
# Documents of assignments

The TOML documents read here assign strings to keys, and have nothing else but blank lines and
comments. Documents with values of other types, dotted keys or tables are refused.
-/

namespace FleetUpgrade.Toml

/-- Whether a character may stand in a key without quotes. -/
def isKeyChar (c : Char) : Bool :=
  c.isAlphanum || c == '_' || c == '-'

def skipSpaces (cs : List Char) : List Char :=
  cs.dropWhile isSpace

def key (cs : List Char) : Scanned :=
  match cs with
  | '"' :: _ => singleString cs
  | '\x27' :: _ => singleString cs
  | _ =>
      let name := cs.takeWhile isKeyChar
      if name.isEmpty then none else some (name, cs.dropWhile isKeyChar)

/-- What follows the end of a line, before which there may be spaces and a comment. -/
def lineEnd (cs : List Char) : Option (List Char) :=
  let rest :=
    match skipSpaces cs with
    | '#' :: comment => comment.dropWhile isTextChar
    | rest => rest
  match rest with
  | [] => some []
  | '\n' :: rest => some rest
  | _ => none

/-- Read an assignment up to the end of its line. -/
def assignment (cs : List Char) : Option ((String × String) × List Char) :=
  match key cs with
  | none => none
  | some (name, rest) =>
      match skipSpaces rest with
      | '=' :: rest =>
          match anyString (skipSpaces rest) with
          | none => none
          | some (value, rest) =>
              (lineEnd rest).map fun rest => ((String.ofList name, String.ofList value), rest)
      | _ => none

def isBlankLine (cs : List Char) : Bool :=
  match cs with
  | [] => true
  | c :: _ => c == '\n' || c == '#'

/-- Read at most `fuel` lines and assignments. -/
def assignments : Nat → List Char → Option (List (String × String))
  | 0, cs => if cs.isEmpty then some [] else none
  | fuel + 1, cs =>
      if cs.isEmpty then some []
      else
        let line := skipSpaces cs
        if isBlankLine line then (lineEnd line).bind (assignments fuel)
        else
          match assignment line with
          | none => none
          | some (entry, rest) => (assignments fuel rest).map (entry :: ·)

def byteOrderMark : Char := Char.ofNat 0xfeff

/-- The characters of a text without the mark in front, its lines ending in line feeds alone. -/
def lineFeedsOnly (text : String) : List Char :=
  let cs := Text.replaceAll ['\r', '\n'] ['\n'] text.toList
  if cs.head? = some byteOrderMark then cs.drop 1 else cs

def parse? (text : String) : Option (List (String × String)) :=
  let cs := lineFeedsOnly text
  assignments (cs.length + 1) cs

end FleetUpgrade.Toml
