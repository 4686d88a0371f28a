import Std.Data.ExtTreeMap
import TokenSearch.Store

/-!
# Directory trees

A disk is a tree of directories and text files below one directory, the one that paths start
from. A path is a text of names with slashes between them. Every name but the last has to be a
directory; a name has at most 255 bytes and a path fewer than 4096. Paths may lead out of the
starting directory, to the directories around it and to what is made there.
-/

namespace TokenSearch

/-- What a place of a disk holds. -/
inductive Entry
  | directory
  | file (text : String)
  deriving DecidableEq, Repr

/-- A directory tree. -/
structure Disk where
  /-- The entries by the names that lead to them. The names of an entry outside the starting
  directory begin with dot pairs, one for each step outwards. -/
  entries : Std.ExtTreeMap (List String) Entry := ∅

namespace Disk

/-- The names of a path. Slashes at the ends and doubled ones separate nothing. -/
def names (path : String) : List String :=
  ((path.toList.splitOn '/').filter (!·.isEmpty)).map String.ofList

/-- Whether a place is the starting directory or one around it. -/
def isAround (place : List String) : Bool := place.all (· = "..")

/-- What stands at a place. The starting directory and those around it are always there. -/
def entryAt? (disk : Disk) (place : List String) : Option Entry :=
  if isAround place then some .directory else disk.entries[place]?

/-- The directory that a place is in. -/
def outwards (place : List String) : List String :=
  if isAround place then ".." :: place else place.dropLast

/-- What stands below the starting directory. -/
def contents (disk : Disk) : List (List String × Entry) :=
  disk.entries.toList.filter (·.1.head? ≠ some "..")

/-- The fault of a name that is too long for any directory. -/
def checkName (name : String) : Except FileFault Unit :=
  if 255 < name.utf8ByteSize then .error .nameTooLong else .ok ()

/-- The faults of a path that show before any directory is looked at. -/
def checkPath (path : String) : Except FileFault Unit :=
  if path.toList.contains '\x00' then .error .nulByte
  else if path.isEmpty then .error .notFound
  else if 4096 ≤ path.utf8ByteSize then .error .nameTooLong
  else .ok ()

/-- Follow names from a directory to a directory. -/
def walk (disk : Disk) (place : List String) : List String → Except FileFault (List String)
  | [] => .ok place
  | name :: rest =>
    if name = "." then walk disk place rest
    else if name = ".." then walk disk (outwards place) rest
    else do
      checkName name
      match disk.entryAt? (place ++ [name]) with
      | some .directory => walk disk (place ++ [name]) rest
      | some (.file _) => .error .notDirectory
      | none => .error .notFound

/-- Whether names lead to a directory. -/
def isDirectory (disk : Disk) (names : List String) : Bool := (disk.walk [] names).isOk

/-- Put an entry at a place. -/
def put (disk : Disk) (place : List String) (entry : Entry) : Disk :=
  { disk with entries := disk.entries.insert place entry }

/-- Make one directory in an existing one. -/
def makeDirectory (disk : Disk) (names : List String) : Except FileFault Disk :=
  match names.getLast? with
  | none => .error .alreadyExists
  | some name => do
    let place ← disk.walk [] names.dropLast
    if name = "." ∨ name = ".." then .error .alreadyExists
    else
      checkName name
      match disk.entryAt? (place ++ [name]) with
      | some _ => .error .alreadyExists
      | none => .ok (disk.put (place ++ [name]) .directory)

/-- The paths to the directories around a path, innermost first. A dot only counts as the first
name. -/
def ancestors (names : List String) : List (List String) :=
  let steps := names.take 1 ++ (names.drop 1).filter (· ≠ ".")
  ((List.range steps.length).map steps.take).reverse.filter (!·.isEmpty)

/-- Make a directory whose surroundings, innermost first, are made first where they are missing.
A directory that is already there is as good as a new one. -/
def makeWithin (disk : Disk) (names : List String) :
    List (List String) → Except FileFault Unit × Disk
  | [] => settle disk
  | around :: further =>
    match disk.makeDirectory names with
    | .error .notFound =>
      match makeWithin disk around further with
      | (.ok (), disk) => settle disk
      | failed => failed
    | _ => settle disk
where
  /-- Make the directory itself, unless it is there. -/
  settle (disk : Disk) : Except FileFault Unit × Disk :=
    match disk.makeDirectory names with
    | .ok disk => (.ok (), disk)
    | .error fault => (if disk.isDirectory names then .ok () else .error fault, disk)

/-- Make a directory and all directories around it that are missing. The empty path stands for
the starting directory. -/
def makeDirectories (disk : Disk) (path : String) : Except FileFault Unit × Disk :=
  if path.isEmpty then (.ok (), disk)
  else match checkPath path with
    | .error fault => (.error fault, disk)
    | .ok () => disk.makeWithin (names path) (ancestors (names path))

/-- Write a text to a file, which is made if it is missing. -/
def writeFile (disk : Disk) (path text : String) : Except FileFault Disk := do
  checkPath path
  match (names path).getLast? with
  | none => .error .notFound
  | some name =>
    let place ← disk.walk [] (names path).dropLast
    checkName name
    match disk.entryAt? (place ++ [name]) with
    | some .directory => .error (.other "Is a directory (os error 21)")
    | _ => .ok (disk.put (place ++ [name]) (.file text))

/-- Write a text to a file. When that fails, the disk stays as it is. -/
def attemptWrite (path text : String) (disk : Disk) : Except FileFault Unit × Disk :=
  match disk.writeFile path text with
  | .ok disk => (.ok (), disk)
  | .error fault => (.error fault, disk)

/-- Remove a file, or a directory with everything below it. -/
def remove (disk : Disk) (path : String) : Disk :=
  match disk.walk [] (names path).dropLast with
  | .error _ => disk
  | .ok place =>
    let target := place ++ (names path).getLast?.toList
    { disk with entries := disk.entries.filter fun found _ => !target.isPrefixOf found }

/-- The path of a name in a directory. -/
def join (directory name : String) : String :=
  if directory.isEmpty || directory.toList.getLast? = some '/' then directory ++ name
  else directory ++ "/" ++ name

/-- Whether something stands at the end of a path. -/
def isUsed (disk : Disk) (path : String) : Bool :=
  match disk.walk [] (names path).dropLast with
  | .ok place => (disk.entryAt? (place ++ (names path).getLast?.toList)).isSome
  | .error _ => false

end Disk

end TokenSearch
