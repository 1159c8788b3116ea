import BuildPlan.Files.Error
import BuildPlan.Path
import BuildPlan.Text.Utf8

/-!
# File trees

A file tree is a finite map from locations to files and directories, seen from a working directory.
A location is the list of names that lead to it from the root, so a path has a location only with
respect to a tree: `..` is resolved on the way, and everything on the way has to be a directory.
-/

namespace BuildPlan

/-- The names from the root down. -/
abbrev Location := List String

/-- The absolute path of a location. -/
def Location.path (loc : Location) : String :=
  "/" ++ Text.joinWith "/" loc

/-- What stands at a location. -/
inductive Item where
  | file (data : Bytes) (executable : Bool)
  | directory
  deriving DecidableEq, Repr

/-- A file tree and a working directory. The root is a directory without being listed. -/
structure FileTree where
  items : List (Location × Item) := []
  cwd : Location := []
  deriving DecidableEq, Repr

namespace FileTree

def at? (t : FileTree) (loc : Location) : Option Item :=
  match loc with
  | [] => some .directory
  | _ :: _ => (t.items.find? (·.1 == loc)).map (·.2)

/-- Whether a directory stands at a location. -/
def hasDirectory (t : FileTree) (loc : Location) : Bool :=
  t.at? loc == some .directory

/-! ## Looking up paths -/

/-- The greatest number of bytes in a name. -/
def nameLimit : Nat := 255

/-- The number of bytes that a path has to stay below. -/
def pathLimit : Nat := 4096

def stepTo (t : FileTree) (loc : Location) (part : List Char) : Except FileError Location :=
  if !t.hasDirectory loc then .error .notDirectory
  else if part = ['.', '.'] then .ok loc.dropLast
  else
    let name := String.ofList part
    if nameLimit < Text.utf8Length name then .error .nameTooLong
    else if (t.at? (loc ++ [name])).isSome then .ok (loc ++ [name])
    else .error .notFound

/-- The steps of several parts, idle ones left out. -/
def stepsTo (t : FileTree) (loc : Location) : List (List Char) → Except FileError Location
  | [] => .ok loc
  | part :: rest =>
    if Path.isIdle part then t.stepsTo loc rest
    else
      match t.stepTo loc part with
      | .error e => .error e
      | .ok loc => t.stepsTo loc rest

/-- Where the steps of a path start. -/
def start (t : FileTree) (path : String) : Location :=
  if Path.isAbsolute path then [] else t.cwd

/-- A path that no tree can hold is refused. -/
def checkPath (path : String) : Except FileError Unit :=
  if path.toList.contains '\x00' then .error .nulInPath
  else if path.isEmpty then .error .notFound
  else if pathLimit ≤ Text.utf8Length path then .error .nameTooLong
  else .ok ()

/-- Whether a path can only mean a directory, because it ends with an idle part. -/
def asksForDirectory (path : String) : Bool :=
  match (Text.split '/' path.toList).getLast? with
  | some part => Path.isIdle part
  | none => false

/-- The location of a path and what stands there. -/
def lookup (t : FileTree) (path : String) : Except FileError (Location × Item) :=
  match checkPath path with
  | .error e => .error e
  | .ok () =>
    match t.stepsTo (t.start path) (Text.split '/' path.toList) with
    | .error e => .error e
    | .ok loc =>
      match t.at? loc with
      | none => .error .notFound
      | some .directory => .ok (loc, .directory)
      | some (.file data executable) =>
        if asksForDirectory path then .error .notDirectory
        else .ok (loc, .file data executable)

def pathExists (t : FileTree) (path : String) : Bool :=
  match t.lookup path with
  | .ok _ => true
  | .error _ => false

def isDirectory (t : FileTree) (path : String) : Bool :=
  match t.lookup path with
  | .ok (_, .directory) => true
  | _ => false

/-! ## Reading -/

def read (t : FileTree) (path : String) : Except FileError Bytes :=
  match t.lookup path with
  | .error e => .error e
  | .ok (_, .directory) => .error .isDirectory
  | .ok (_, .file data _) => .ok data

/-- The contents of the file at a path, as text. -/
def readText (t : FileTree) (path : String) : Except FileError String :=
  match t.read path with
  | .error e => .error e
  | .ok data =>
    match Text.ofUtf8? data with
    | some s => .ok s
    | none => .error .notUtf8

/-! ## Listing -/

/-- The name that a location has directly below another one. -/
def childName? (loc : Location) (other : Location) : Option String :=
  match other.getLast? with
  | some name => if other.dropLast = loc then some name else none
  | none => none

def sortNames (names : List String) : List String :=
  names.mergeSort fun a b => !decide (b < a)

/-- The names directly below a location, in order. -/
def children (t : FileTree) (loc : Location) : List String :=
  sortNames (t.items.filterMap fun item => childName? loc item.1)

/-- The items at and below a location, each with its path, a directory before what it holds and
names in order; `depth` bounds how far down. An item is listed by the directory that holds it and is
not looked up by its path, so no limit on paths applies to it. That a directory with too long a path
could not be opened is left out: a walk comes to every item below. -/
def walkFrom (t : FileTree) : (depth : Nat) → (path : String) → Location → List (String × Item)
  | 0, _, _ => []
  | depth + 1, path, loc =>
    match t.at? loc with
    | none => []
    | some (.file data executable) => [(path, .file data executable)]
    | some .directory =>
      (path, .directory) ::
        (t.children loc).flatMap fun name =>
          t.walkFrom depth (Path.join path name) (loc ++ [name])

/-- More than the number of names on any location of the tree. -/
def depthBound (t : FileTree) : Nat :=
  (t.items.map fun item => item.1.length).foldr max 0 + 1

def walk (t : FileTree) (path : String) : Except FileError (List (String × Item)) :=
  match t.lookup path with
  | .error e => .error e
  | .ok (loc, _) => .ok (t.walkFrom t.depthBound path loc)

/-- The names of the files directly in the directory at a path, in order; none where a file stands
there. -/
def fileNames (t : FileTree) (path : String) : Except FileError (List String) :=
  match t.lookup path with
  | .error e => .error e
  | .ok (_, .file _ _) => .ok []
  | .ok (loc, .directory) =>
    .ok ((t.children loc).filter fun name =>
      match t.at? (loc ++ [name]) with
      | some (.file _ _) => true
      | _ => false)

end FileTree

end BuildPlan
