import FleetUpgrade.Text.Search

/-!
# File paths

A path is a text whose names stand between slashes. Empty names and single dots lead nowhere; two
dots lead to the directory above. A path that starts with a slash starts at the root. No file can
be asked for by a path of 4096 bytes or more, or by one with a zero.
-/

namespace FleetUpgrade.FilePath

def isAbsolute (path : String) : Bool :=
  path.toList.head? == some '/'

def pieces (path : String) : List String :=
  (Text.segments '/' path.toList).map String.ofList

/-- Whether a piece leads nowhere. -/
def isIdle (piece : String) : Bool :=
  piece == "" || piece == "."

/-- The pieces that lead somewhere. -/
def steps (path : String) : List String :=
  (pieces path).filter fun piece => !isIdle piece

/-- Whether the path can only stand for a directory: it ends in a slash or in dots. -/
def namesDirectory (path : String) : Bool :=
  match (pieces path).getLast? with
  | none => true
  | some piece => piece == "" || piece == "." || piece == ".."

/-- The path of `name` inside the directory `dir`; an absolute `name` stands for itself. -/
def join (dir name : String) : String :=
  if dir = "" ∨ isAbsolute name then name
  else if dir.toList.getLast? = some '/' then dir ++ name
  else dir ++ "/" ++ name

/-- The pieces up to the last one that leads somewhere. -/
def trimIdle (pieces : List String) : List String :=
  (pieces.reverse.dropWhile isIdle).reverse

/-- The path of the directory that holds what a path stands for: the path without its last name
and without what leads nowhere before that. The root and the empty path have none. -/
def parent? (path : String) : Option String :=
  match pieces path with
  | [] => none
  | first :: rest =>
      match trimIdle rest with
      | [] => if first = "" then none else some ""
      | way =>
          match trimIdle way.dropLast with
          | [] => some (if first = "" then "/" else first)
          | above => some (Text.join "/" (first :: above))

/-- The last name of a path, unless the path ends at the root or goes up last. -/
def fileName? (path : String) : Option String :=
  match (steps path).getLast? with
  | none => none
  | some piece => if piece = ".." then none else some piece

/-- The path of another name in the same directory; one without a last name is gone into. -/
def withFileName (path name : String) : String :=
  match fileName? path with
  | some _ => join ((parent? path).getD "") name
  | none => join path name

def isUsable (path : String) : Bool :=
  path.utf8ByteSize < 4096 && !path.toList.contains (Char.ofNat 0)

/-- Whether a directory can have an entry of this name: one to 255 bytes without a zero. -/
def isEntryName (name : String) : Bool :=
  0 < name.utf8ByteSize && name.utf8ByteSize ≤ 255 && !name.toList.contains (Char.ofNat 0)

end FleetUpgrade.FilePath
