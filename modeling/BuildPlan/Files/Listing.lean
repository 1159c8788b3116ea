import BuildPlan.Files.Write

/-!
# Trees as lists

A tree can be filled from a list of paths and contents and shown as one. Whatever is put down makes
the directories above it, and takes the place of what was there.
-/

namespace BuildPlan

namespace FileTree

/-! ## Filling -/

/-- The location that a path means without looking at a tree. -/
def locate (t : FileTree) (path : String) : Location :=
  (Path.components path).foldl (fun loc c =>
    match c with
    | .root => []
    | .current => loc
    | .parent => loc.dropLast
    | .name s => loc ++ [s]) t.cwd

/-- The tree with directories at the location `top` and one for each further name below it. -/
def ensureBelow (t : FileTree) (top : Location) : List String → FileTree
  | [] => t
  | name :: rest =>
    let loc := top ++ [name]
    (if t.hasDirectory loc then t else t.put loc .directory).ensureBelow loc rest

/-- The tree with directories at and above a location. -/
def ensureDirectory (t : FileTree) (loc : Location) : FileTree :=
  t.ensureBelow [] loc

def putFile (t : FileTree) (path : String) (data : Bytes) (executable : Bool) : FileTree :=
  let loc := t.locate path
  (t.ensureDirectory loc.dropLast).put loc (.file data executable)

/-- The tree with a directory put at a path. -/
def putDirectory (t : FileTree) (path : String) : FileTree :=
  t.ensureDirectory (t.locate path)

/-- The tree without what stands at a path. -/
def removeAt (t : FileTree) (path : String) : FileTree :=
  match t.lookup path with
  | .ok (loc, _) => t.remove loc
  | .error _ => t

/-! ## Showing -/

/-- The items below the directory at a path, each with the names that lead to it from there. -/
def below (t : FileTree) (path : String) : List (Location × Item) :=
  match t.lookup path with
  | .ok (loc, .directory) =>
    t.items.filterMap fun (other, item) =>
      if isBelow other loc && other != loc then some (other.drop loc.length, item) else none
  | _ => []

def pathBelow (path : String) (names : Location) : String :=
  path ++ "/" ++ Text.joinWith "/" names

/-- The paths of everything below a path in the order of their bytes, directories with a slash at
the end. -/
def listing (t : FileTree) (path : String) : List String :=
  sortNames ((t.below path).map fun (names, item) =>
    match item with
    | .directory => pathBelow path names ++ "/"
    | .file _ _ => pathBelow path names)

/-- The paths and contents of the files below a path. -/
def contents (t : FileTree) (path : String) : List (String × Bytes) :=
  (t.below path).filterMap fun (names, item) =>
    match item with
    | .directory => none
    | .file data _ => some (pathBelow path names, data)

end FileTree

end BuildPlan
