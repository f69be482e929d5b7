import FleetUpgrade.Disk.FilePath

/-!
# A disk

A disk holds directories and files. Entries are kept under their locations. Every file has a number
of its own, which it keeps when it is moved. Writing to a file that is there keeps its number and
its permissions; a new file is readable by all and writable by its owner. All files belong to the
one who uses the disk, so the owner's permissions tell what can be read and written. Some
directories may be closed: nothing is made in them, and nothing moved there or away.

A file that was opened is written at a position that moves on, wherever the file is by then; when
the file is gone, so is what is written.

Every operation either succeeds or leaves the disk as it was, except that directories made on the
way to one that cannot be made remain.
-/

namespace FleetUpgrade

/-- What stands at a location. -/
inductive Entry where
  | directory
  | file (number : Nat) (contents : ByteArray) (mode : Nat)

/-- The names on the way from the root, each after a slash. -/
abbrev Location := String

namespace Location

def root : Location := ""

def child (loc : Location) (name : String) : Location :=
  loc ++ "/" ++ name

/-- The directory that holds a location; the root holds itself. -/
def parent (loc : Location) : Location :=
  ((Text.cutLast '/' loc).map Prod.fst).getD root

/-- The names from a directory on, joined by slashes, if the location is below it. -/
def below? (directory loc : Location) : Option String :=
  Text.stripLead (directory.child "") loc

end Location

/-- Directories and files, and the directory where relative paths start. -/
structure Disk where
  entries : List (Location × Entry)
  here : Location
  /-- the directories in which nothing can be made -/
  closed : List Location
  /-- how many files were made so far -/
  made : Nat

/-- A file that was opened for writing, and where the next byte goes. -/
structure OpenFile where
  number : Nat
  position : Nat

/-- The contents with bytes written over them from a position on; what is missing before it is
filled with zeros. -/
def overwrite (position : Nat) (bytes contents : ByteArray) : ByteArray :=
  contents.extract 0 position ++ ⟨Array.replicate (position - contents.size) 0⟩ ++ bytes ++
    contents.extract (position + bytes.size) contents.size

namespace Disk

def newFileMode : Nat := 0o644

/-- Whether these permissions let the owner read: 0o400. -/
def mayRead (mode : Nat) : Bool :=
  mode.testBit 8

/-- Whether these permissions let the owner write: 0o200. -/
def mayWrite (mode : Nat) : Bool :=
  mode.testBit 7

def empty : Disk :=
  ⟨[], .root, [], 0⟩

/-- What stands at a location; the root is always a directory. -/
def entry? (d : Disk) (loc : Location) : Option Entry :=
  if loc = .root then some .directory else d.entries.lookup loc

def isDirectory (d : Disk) (loc : Location) : Bool :=
  match d.entry? loc with
  | some .directory => true
  | _ => false

/-- Whether an entry can be made at a location or taken from it. -/
def mayChange (d : Disk) (loc : Location) : Bool :=
  !d.closed.contains loc.parent

def without (d : Disk) (loc : Location) : Disk :=
  { d with entries := d.entries.filter fun e => e.1 ≠ loc }

def withEntry (d : Disk) (loc : Location) (e : Entry) : Disk :=
  { d with entries := (loc, e) :: (d.without loc).entries }

def withNewFile (d : Disk) (loc : Location) (contents : ByteArray) : Disk :=
  { d.withEntry loc (.file d.made contents newFileMode) with made := d.made + 1 }

def start (d : Disk) (path : String) : Location :=
  if FilePath.isAbsolute path then .root else d.here

/-- Follow steps from a location; all but the last must lead to directories. -/
def follow (d : Disk) : Location → List String → Option Location
  | loc, [] => some loc
  | loc, step :: steps =>
      if d.isDirectory loc then
        if step = ".." then follow d loc.parent steps
        else if FilePath.isEntryName step then follow d (loc.child step) steps
        else none
      else none

def locate (d : Disk) (path : String) : Option Location :=
  if FilePath.namesDirectory path || !FilePath.isUsable path then none
  else d.follow (d.start path) (FilePath.steps path)

/-- The contents of a file that may be read. -/
def read? (d : Disk) (path : String) : Option ByteArray :=
  match (d.locate path).bind d.entry? with
  | some (.file _ contents mode) => if mayRead mode then some contents else none
  | _ => none

def readText? (d : Disk) (path : String) : Option String :=
  (d.read? path).bind String.fromUTF8?

/-- Write a new file, or one that may be written. -/
def write? (d : Disk) (path : String) (contents : ByteArray) : Option Disk :=
  (d.locate path).bind fun loc =>
    match d.entry? loc with
    | some .directory => none
    | some (.file number _ mode) =>
        if mayWrite mode then some (d.withEntry loc (.file number contents mode)) else none
    | none => if d.mayChange loc then some (d.withNewFile loc contents) else none

/-- Open a file for writing, without contents at first. -/
def create? (d : Disk) (path : String) : Option (OpenFile × Disk) :=
  (d.locate path).bind fun loc =>
    (d.write? path .empty).bind fun ready =>
      match ready.entry? loc with
      | some (.file number _ _) => some (⟨number, 0⟩, ready)
      | _ => none

def writeTo (d : Disk) (file : OpenFile) (bytes : ByteArray) : OpenFile × Disk :=
  (⟨file.number, file.position + bytes.size⟩,
    { d with
      entries := d.entries.map fun e =>
        match e with
        | (loc, .file number contents mode) =>
            if number = file.number then
              (loc, .file number (overwrite file.position bytes contents) mode)
            else e
        | _ => e })

def setMode? (d : Disk) (path : String) (mode : Nat) : Option Disk :=
  (d.locate path).bind fun loc =>
    match d.entry? loc with
    | some (.file number contents _) =>
        some (d.withEntry loc (.file number contents (mode % 0o10000)))
    | _ => none

/-- Move a file onto another path, in place of a file there. -/
def rename? (d : Disk) (source target : String) : Option Disk :=
  match d.locate source, d.locate target with
  | some old, some new =>
      match d.entry? old, d.entry? new with
      | some (.file ..), some .directory => none
      | some (.file number contents mode), _ =>
          if d.mayChange old && d.mayChange new then
            some ((d.without old).withEntry new (.file number contents mode))
          else none
      | _, _ => none
  | _, _ => none

/-- Make the directories of the steps from a location that are not there. The flag tells whether
all could be made. -/
def makeSteps (d : Disk) : Location → List String → Disk × Bool
  | _, [] => (d, true)
  | loc, step :: steps =>
      if step = ".." then makeSteps d loc.parent steps
      else if FilePath.isEntryName step then
        match d.entry? (loc.child step) with
        | some .directory => makeSteps d (loc.child step) steps
        | some (.file ..) => (d, false)
        | none =>
            if d.mayChange (loc.child step) then
              makeSteps (d.withEntry (loc.child step) .directory) (loc.child step) steps
            else (d, false)
      else (d, false)

def makeDirectories (d : Disk) (path : String) : Disk × Bool :=
  if FilePath.isUsable path then d.makeSteps (d.start path) (FilePath.steps path) else (d, false)

/-- The disk with these directories, each with those above it. -/
def ofDirectories (paths : List String) : Disk :=
  paths.foldl (fun d path => (d.makeDirectories path).1) empty

def makeParents (d : Disk) (path : String) : Disk × Bool :=
  match FilePath.parent? path with
  | some directory => d.makeDirectories directory
  | none => (d, true)

def removeTree (d : Disk) (loc : Location) : Disk :=
  { d with
    entries := d.entries.filter fun e => e.1 ≠ loc && (Location.below? loc e.1).isNone }

/-- The files below a directory that may be read, by their names from there on, in increasing order
of the names joined by slashes. -/
def filesBelow (d : Disk) (loc : Location) : List (String × ByteArray × Nat) :=
  let found := d.entries.filterMap fun e =>
    match e.2, Location.below? loc e.1 with
    | .file _ contents mode, some name =>
        if mayRead mode then some (name, contents, mode) else none
    | _, _ => none
  found.mergeSort fun x y => x.1 ≤ y.1

end Disk

end FleetUpgrade
