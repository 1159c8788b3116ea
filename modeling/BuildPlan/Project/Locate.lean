import BuildPlan.Files.Tree
import BuildPlan.Project.Reader

/-!
# Finding and loading projects

The manifest of a project has a fixed name. It is looked for in a directory and then in each
directory above it, as far as the path goes.
-/

namespace BuildPlan.Project

def projectFile : String := "kiln.kdl"

/-- Why a project cannot be loaded. -/
inductive LoadError where
  | unreadable (path : String) (reason : FileError)
  | malformed
  | notFound (start : String)
  deriving DecidableEq, Repr

namespace LoadError

def message : LoadError → String
  | unreadable path reason => "failed to read " ++ path ++ ": " ++ reason.message
  | malformed => "failed to parse " ++ projectFile
  | notFound start => "no " ++ projectFile ++ " found in " ++ start ++ " or any parent directory"

end LoadError

/-- A reader of manifests. -/
abbrev Reader := String → Option Project

/-- Loads the project of the manifest at a path. -/
def load (read : Reader) (t : FileTree) (path : String) : Except LoadError Project :=
  match t.readText path with
  | .error e => .error (.unreadable path e)
  | .ok source =>
    match read source with
    | some p => .ok p
    | none => .error .malformed

/-- A path and the paths above it, as far as it goes; `fuel` bounds their number. -/
def ancestorsFrom : (fuel : Nat) → String → List String
  | 0, _ => []
  | fuel + 1, path =>
    match Path.parent? path with
    | some parent => path :: ancestorsFrom fuel parent
    | none => [path]

/-- A path and the paths above it, the path itself first. -/
def ancestors (path : String) : List String :=
  ancestorsFrom (path.length + 1) path

/-- The path of the manifest for a directory inside a project. -/
def locate (t : FileTree) (start : String) : Except LoadError String :=
  match ((ancestors start).map (Path.join · projectFile)).find? t.pathExists with
  | some path => .ok path
  | none => .error (.notFound start)

end BuildPlan.Project
