import BuildPlan.Files.Tree

/-!
# Writing files

A file is written to the side and then put in its place, so a path holds either what it held or the
whole new contents; on failure nothing is left but directories made on the way. `update`
leaves a file alone that holds the contents already.
-/

namespace BuildPlan

namespace FileTree

/-- The tree with an item put at a location. -/
def put (t : FileTree) (loc : Location) (item : Item) : FileTree :=
  { t with items := t.items.filter (·.1 != loc) ++ [(loc, item)] }

/-- Whether a location is another one or lies below it. -/
def isBelow (loc top : Location) : Bool :=
  top.isPrefixOf loc

/-- The tree without what stands at and below a location. -/
def remove (t : FileTree) (loc : Location) : FileTree :=
  { t with items := t.items.filter fun item => !isBelow item.1 loc }

/-! ## Places for new items -/

/-- The last part of a path that is followed by nothing but slashes, and the parts before it. -/
def lastPart? (path : String) : Option (List (List Char) × List Char) :=
  match (Text.split '/' path.toList).reverse.dropWhile (· == []) with
  | [] => none
  | part :: before => some (before.reverse, part)

/-- Where the last part of a path stands or would stand: the location of its directory and the
part. -/
def place (t : FileTree) (path : String) : Except FileError (Location × Option (List Char)) :=
  match checkPath path with
  | .error e => .error e
  | .ok () =>
    match lastPart? path with
    | none => .ok ([], none)
    | some (before, part) =>
      match t.stepsTo (t.start path) before with
      | .error e => .error e
      | .ok dir => if t.hasDirectory dir then .ok (dir, some part) else .error .notDirectory

def isItemName (part : List Char) : Bool :=
  part != ['.'] && part != ['.', '.']

def makeDirectory (t : FileTree) (path : String) : Except FileError FileTree :=
  match t.place path with
  | .error e => .error e
  | .ok (_, none) => .error .alreadyThere
  | .ok (dir, some part) =>
    let name := String.ofList part
    if !isItemName part then .error .alreadyThere
    else if nameLimit < Text.utf8Length name then .error .nameTooLong
    else if (t.at? (dir ++ [name])).isSome then .error .alreadyThere
    else .ok (t.put (dir ++ [name]) .directory)

/-- Makes the directory at a path and all that lead to it; `fuel` bounds how many. The tree is
returned on failure too, with the directories made until then. -/
def makeDirectoriesFrom (t : FileTree) : (fuel : Nat) → (path : String) →
    FileTree × Except FileError Unit
  | 0, _ => (t, .error .noTree)
  | fuel + 1, path =>
    if path.isEmpty then (t, .ok ())
    else
      match t.makeDirectory path with
      | .ok t => (t, .ok ())
      | .error .notFound =>
        match Path.parent? path with
        | none => (t, .error .noTree)
        | some parent =>
          match t.makeDirectoriesFrom fuel parent with
          | (t, .error e) => (t, .error e)
          | (t, .ok ()) =>
            match t.makeDirectory path with
            | .ok t => (t, .ok ())
            | .error e => if t.isDirectory path then (t, .ok ()) else (t, .error e)
      | .error e => if t.isDirectory path then (t, .ok ()) else (t, .error e)

/-- Makes the directory at a path and all that lead to it. -/
def makeDirectories (t : FileTree) (path : String) : FileTree × Except FileError Unit :=
  t.makeDirectoriesFrom (path.length + 1) path

/-- Puts a file in its place, over a file that stands there. -/
def persist (t : FileTree) (path : String) (data : Bytes) : Except FileError FileTree :=
  match t.place path with
  | .error e => .error e
  | .ok (_, none) => .error .busy
  | .ok (dir, some part) =>
    let name := String.ofList part
    if !isItemName part then .error .busy
    else if nameLimit < Text.utf8Length name then .error .nameTooLong
    else if path.toList.getLast? = some '/' then .error .notDirectory
    else if t.hasDirectory (dir ++ [name]) then .error .isDirectory
    else .ok (t.put (dir ++ [name]) (.file data false))

/-! ## Writing -/

/-- The directory that the file at a path is written in. -/
def directoryOf (path : String) : String :=
  match Path.parent? path with
  | some parent => if parent.isEmpty then "." else parent
  | none => "."

/-- Writes a file at once, and makes the directories that lead to it. -/
def store (t : FileTree) (path : String) (data : Bytes) :
    FileTree × Except FileError Unit :=
  match t.makeDirectories (directoryOf path) with
  | (t, .error e) => (t, .error e)
  | (t, .ok ()) =>
    match t.persist path data with
    | .ok t => (t, .ok ())
    | .error e => (t, .error (.persist e))

/-- What a conditional write did. -/
inductive WriteEffect where
  | written
  | unchanged
  deriving DecidableEq, Repr

/-- Writes a file unless it holds the contents already. -/
def update (t : FileTree) (path : String) (data : Bytes) :
    FileTree × Except FileError WriteEffect :=
  match t.read path with
  | .ok old =>
    if old = data then (t, .ok .unchanged)
    else
      match t.store path data with
      | (t, .ok ()) => (t, .ok .written)
      | (t, .error e) => (t, .error e)
  | .error .notFound =>
    match t.store path data with
    | (t, .ok ()) => (t, .ok .written)
    | (t, .error e) => (t, .error e)
  | .error e => (t, .error e)

end FileTree

end BuildPlan
