import FlatAsm.CommandLine.Failure

/-!
# Files

All that a run needs to know of files is what each place holds.  A path is
walked name by name from the working directory or from the root, and every
place on the way has to be a directory.
-/

namespace FlatAsm.CommandLine

/-- Where a walk can start. -/
inductive Origin where
  | root
  /-- So many directories above the working directory. -/
  | above (levels : Nat)
  deriving DecidableEq, Repr

/-- A place: the names on the way to it. -/
structure Place where
  origin : Origin
  names : List Text
  deriving DecidableEq, Repr

namespace Place

/-- The working directory. -/
def working : Place := ⟨.above 0, []⟩

/-- The root of all files. -/
def root : Place := ⟨.root, []⟩

/-- The place with a name in a directory. -/
def child (place : Place) (name : Text) : Place :=
  { place with names := place.names ++ [name] }

/-- The directory that a place is in; the root is in itself. -/
def parent (place : Place) : Place :=
  match place.origin, place.names with
  | .root, [] => root
  | .above levels, [] => ⟨.above (levels + 1), []⟩
  | origin, names => ⟨origin, names.dropLast⟩

end Place

/-- What a place holds. -/
inductive Entry where
  | file (contents : Text)
  | directory
  | nothing
  deriving DecidableEq, Repr

/-- What every place holds. -/
structure FileSystem where
  entry : Place → Entry

/-- The parts of a text between slashes. -/
def splitSlashes (text : Text) : List Text :=
  text.foldr
    (fun byte parts =>
      if byte = 0x2f then [] :: parts
      else
        match parts with
        | [] => [[byte]]
        | part :: others => (byte :: part) :: others)
    [[]]

/-- The names in a path. -/
def namesIn (path : Text) : List Text :=
  (splitSlashes path).filter (· ≠ [])

/-- The name by which a directory calls itself. -/
def selfName : Text := [0x2e]

/-- The name by which a directory calls the one it is in. -/
def parentName : Text := [0x2e, 0x2e]

/-- How many bytes a name has at most. -/
def nameLimit : Nat := 255

/-- How many bytes a path has at most. -/
def pathLimit : Nat := 4095

/-- Does a path end in a slash, as only one to a directory should? -/
def endsInSlash (path : Text) : Bool :=
  path.getLast? = some 0x2f

namespace FileSystem

/-- Go from a place to a name in it, or to itself, or to where it is. -/
def step (files : FileSystem) (place : Place) (name : Text) :
    Except FileFault Place :=
  match files.entry place with
  | .nothing => .error .absent
  | .file _ => .error .notDirectory
  | .directory =>
      if name = selfName then .ok place
      else if name = parentName then .ok place.parent
      else if nameLimit < name.length then .error .tooLong
      else .ok (place.child name)

/-- Where a path starts. -/
def start (path : Text) : Place :=
  if path.take 1 = [0x2f] then .root else .working

/-- Walk along some names. -/
def walk (files : FileSystem) (path : Text) (names : List Text) :
    Except FileFault Place :=
  if path = [] then .error .absent
  else if path.contains 0 then .error .invalid
  else if pathLimit < path.length then .error .tooLong
  else names.foldlM files.step (start path)

/-- The place that a path leads to. -/
def resolve (files : FileSystem) (path : Text) : Except FileFault Place :=
  files.walk path (namesIn path)

/-- What opening a file for reading finds: text, or a directory. -/
def openForReading (files : FileSystem) (path : Text) :
    Except FileFault Entry := do
  let place ← files.resolve path
  match files.entry place with
  | .nothing => .error .absent
  | .directory => .ok .directory
  | .file contents =>
      if endsInSlash path then .error .notDirectory
      else .ok (.file contents)

/-- Is the last name of a path one that a file could have? -/
def endsInName (path : Text) : Bool :=
  match (namesIn path).getLast? with
  | none => false
  | some name => name ≠ selfName && name ≠ parentName

/--
The place of the file that is opened for writing.

A file is made if there is none.  A path that ends in a slash names a
directory, whatever is there, provided that the way to it can be walked.
-/
def placeForWriting (files : FileSystem) (path : Text) :
    Except FileFault Place := do
  if endsInSlash path && endsInName path then
    let _ ← files.walk path ((namesIn path).dropLast ++ [selfName])
    .error .directory
  else
    let place ← files.resolve path
    match files.entry place with
    | .directory => .error .directory
    | .file _ | .nothing => .ok place

/-- The files after a place has got new contents. -/
def put (files : FileSystem) (place : Place) (contents : Text) :
    FileSystem :=
  ⟨fun other => if other = place then .file contents else files.entry other⟩

/-- Write a file, in place of any older one. -/
def write (files : FileSystem) (path contents : Text) :
    Except FileFault FileSystem := do
  return files.put (← files.placeForWriting path) contents

/-- What names below the working directory lead to among some files. -/
def entryAmong (files : List (List Text × Text)) (names : List Text) :
    Entry :=
  match files.lookup names with
  | some contents => .file contents
  | none =>
      let isOnTheWay (file : List Text × Text) : Bool :=
        names.length < file.1.length && names.isPrefixOf file.1
      if names.isEmpty || files.any isOnTheWay then .directory else .nothing

/-- The directories that every system has, by their names. -/
def commonDirectories : List Text :=
  ["bin", "dev", "etc", "home", "lib", "proc", "root", "sys", "tmp", "usr",
    "var"].map Text.ascii

/-- The place of the file that is always empty. -/
def nullPlace : Place :=
  ⟨.root, ["dev", "null"].map Text.ascii⟩

/--
The file system with some files in and under its working directory.

Around it are only the directories that lead there, those that every system
has, and the file that is always empty.
-/
def ofFiles (files : List (Text × Text)) : FileSystem :=
  let known := files.map fun file => (namesIn file.1, file.2)
  ⟨fun place =>
    match place with
    | ⟨.above 0, names⟩ => entryAmong known names
    | ⟨_, []⟩ => .directory
    | ⟨.root, [name]⟩ =>
        if commonDirectories.contains name then .directory else .nothing
    | place => if place = nullPlace then .file [] else .nothing⟩

end FileSystem

end FlatAsm.CommandLine
