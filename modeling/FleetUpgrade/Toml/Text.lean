import FleetUpgrade.Text.Hex

/-!
# TOML strings

TOML has four forms of strings. Basic strings, between double quotes, have escapes; literal
strings, between single quotes, have none. Both have a form between three quotes that may go over
several lines; a line feed right after the opening quotes does not count, and up to two quotes may
stand before the closing ones.

Lines are taken to end in line feeds alone. A reader takes the characters after the opening
quotes and gives the contents with what follows the closing quotes.
-/

namespace FleetUpgrade.Toml

/-- Contents and what follows. -/
abbrev Scanned := Option (List Char × List Char)

def Scanned.before (cs : List Char) (r : Scanned) : Scanned :=
  r.map fun parts => (cs ++ parts.1, parts.2)

/-- Whether a character may stand in strings and comments: tabs and all but controls. -/
def isTextChar (c : Char) : Bool :=
  c == '\t' || (0x20 ≤ c.toNat && c.toNat != 0x7f)

def isSpace (c : Char) : Bool :=
  c == ' ' || c == '\t'

/-- The character of a code point, unless it is half of a surrogate pair or too great. -/
def charOf? (n : Nat) : Option Char :=
  if n.isValidChar then some (Char.ofNat n) else none

def shortEscape? : Char → Option Char
  | '"' => some '"'
  | '\\' => some '\\'
  | 'b' => some (Char.ofNat 8)
  | 'f' => some (Char.ofNat 12)
  | 'n' => some '\n'
  | 'r' => some '\r'
  | 't' => some '\t'
  | _ => none

/-- Where the reader stands inside a string with escapes. -/
inductive Place where
  | plain
  /-- after a backslash -/
  | escape
  /-- inside a code of which `left + 1` digits are to come -/
  | code (left value : Nat)
  /-- in the blanks between a backslash and the end of its line -/
  | lineEnd
  /-- in the blanks after such a line -/
  | lineStart

/-- Read a character of an escape: what it writes, and where the reader stands afterwards. -/
def escapeStep (place : Place) (c : Char) : Option (List Char × Place) :=
  match place with
  | .code left value =>
      match Text.Hex.value? c, left with
      | none, _ => none
      | some d, 0 => (charOf? (value * 16 + d)).map fun e => ([e], .plain)
      | some d, left + 1 => some ([], .code left (value * 16 + d))
  | _ =>
      if c = 'u' then some ([], .code 3 0)
      else if c = 'U' then some ([], .code 7 0)
      else (shortEscape? c).map fun e => ([e], .plain)

def basic : Place → List Char → Scanned
  | _, [] => none
  | .plain, c :: cs =>
      if c = '"' then some ([], cs)
      else if c = '\\' then basic .escape cs
      else if isTextChar c then (basic .plain cs).before [c]
      else none
  | place, c :: cs =>
      match escapeStep place c with
      | none => none
      | some (written, next) => (basic next cs).before written

def literal : List Char → Scanned
  | [] => none
  | c :: cs =>
      if c = '\x27' then some ([], cs)
      else if isTextChar c then (literal cs).before [c]
      else none

/-- What follows a quote in a string between three quotes: if it closes the string, the quotes
that belong to the contents and what follows the closing ones. -/
def closing? (quote : Char) : List Char → Scanned
  | a :: b :: cs =>
      if a = quote ∧ b = quote then
        match cs with
        | c :: d :: rest =>
            if c = quote ∧ d = quote then some ([quote, quote], rest)
            else if c = quote then some ([quote], d :: rest)
            else some ([], cs)
        | [c] => if c = quote then some ([quote], []) else some ([], cs)
        | [] => some ([], [])
      else none
  | _ => none

def multiLiteral : List Char → Scanned
  | [] => none
  | c :: cs =>
      if c = '\x27' then
        match closing? '\x27' cs with
        | some closed => some closed
        | none => (multiLiteral cs).before [c]
      else if isTextChar c || c == '\n' then (multiLiteral cs).before [c]
      else none

/-- Read a basic string between three quotes. A backslash at the end of a line takes out the line
feed and all blanks and line feeds after it. -/
def multiBasic : Place → List Char → Scanned
  | _, [] => none
  | place, c :: cs =>
      match place with
      | .code .. =>
          match escapeStep place c with
          | none => none
          | some (written, next) => (multiBasic next cs).before written
      | .escape =>
          if isSpace c then multiBasic .lineEnd cs
          else if c = '\n' then multiBasic .lineStart cs
          else
            match escapeStep place c with
            | none => none
            | some (written, next) => (multiBasic next cs).before written
      | .lineEnd =>
          if isSpace c then multiBasic .lineEnd cs
          else if c = '\n' then multiBasic .lineStart cs
          else none
      | _ =>
          if (place matches .lineStart) && (isSpace c || c == '\n') then multiBasic .lineStart cs
          else if c = '"' then
            match closing? '"' cs with
            | some closed => some closed
            | none => (multiBasic .plain cs).before [c]
          else if c = '\\' then multiBasic .escape cs
          else if isTextChar c || c == '\n' then (multiBasic .plain cs).before [c]
          else none

def dropLineFeed : List Char → List Char
  | '\n' :: cs => cs
  | cs => cs

/-- Read a string on one line, from its opening quote on. -/
def singleString : List Char → Scanned
  | '"' :: cs => basic .plain cs
  | '\x27' :: cs => literal cs
  | _ => none

/-- Read a string of any form, from its opening quotes on. -/
def anyString : List Char → Scanned
  | '"' :: '"' :: '"' :: cs => multiBasic .plain (dropLineFeed cs)
  | '\x27' :: '\x27' :: '\x27' :: cs => multiLiteral (dropLineFeed cs)
  | cs => singleString cs

end FleetUpgrade.Toml
