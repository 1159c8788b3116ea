import BuildPlan.Shell.Run
import BuildPlan.TestRun.Run

/-!
# A host for scripts

The host on which nothing runs but scripts: a program is the shell, or a file whose first line names
the shell, and what else stands in the tree cannot be run. It is started in a directory, with
arguments and an environment, and reads nothing.
-/

namespace BuildPlan

namespace Launch

/-- The directories that a name without a slash is looked up in. -/
def searchDirs : List String := ["/bin", "/usr/bin"]

/-- The path of the program: a name without a slash is looked up. -/
def programPath (t : FileTree) (program : String) : Except FileError String :=
  if program.toList.contains '/' then .ok program
  else if program.isEmpty then .error .notFound
  else
    match (searchDirs.map (Path.join · program)).find? t.pathExists with
    | some path => .ok path
    | none => .error .notFound

/-- The interpreter that the first line of a file names, and an argument for it. -/
def interpreter? (source : List Char) : Option (String × List String) :=
  match source.takeWhile (· != '\n') with
  | '#' :: '!' :: cs =>
    let words := Text.trim cs
    let argument := Text.trim (words.dropWhile (!Text.isBlank ·))
    some (String.ofList (words.takeWhile (!Text.isBlank ·)),
      if argument.isEmpty then [] else [String.ofList argument])
  | _ => none

def programAt (t : FileTree) (path : String) : Except FileError (Location × Bytes) :=
  match t.lookup path with
  | .error e => .error e
  | .ok (_, .directory) => .error .permissionDenied
  | .ok (loc, .file data executable) =>
    if executable then .ok (loc, data) else .error .permissionDenied

/-- The arguments with which a program comes to the shell. -/
def shellArguments (t : FileTree) (path : String) (args : List String) :
    Except FileError (List String) :=
  match programAt t path with
  | .error e => .error e
  | .ok (loc, data) =>
    if loc = Shell.shellLocation then .ok args
    else
      match interpreter? (Shell.sourceOf data) with
      | none => .error .notProgram
      | some (interpreter, argument) =>
        match programAt t interpreter with
        | .error e => .error e
        | .ok (loc, _) =>
          if loc = Shell.shellLocation then .ok (argument ++ path :: args)
          else .error .notProgram

/-- The tree seen from the directory that the program runs in. -/
def enter (t : FileTree) (dir : String) : Except FileError FileTree :=
  match t.lookup dir with
  | .error e => .error e
  | .ok (_, .file _ _) => .error .notDirectory
  | .ok (loc, .directory) => .ok { t with cwd := loc }

/-- How a process ended, by what its script did. -/
def endStatus : Shell.State × Shell.Flow → EndStatus
  | (_, .killed _) => none
  | (s, _) => some (Int32.ofNat (Shell.State.exitCode s.status))

def runShell (t : FileTree) (environment : List (String × String)) (args : List String) :
    FileTree × Outcome :=
  let s := Shell.freshState t environment []
  match Shell.shellScript? s args with
  | none => (t, ⟨[], some (Int32.ofNat Shell.misuseStatus)⟩)
  | some script =>
    let (s, flow) := Shell.runScript s script
    (s.tree, ⟨s.output, endStatus (s, flow)⟩)

/-- What is needed to start a program: the tree seen from its directory, and the arguments with
which it comes to the shell. -/
def prepare (t : FileTree) (l : Launch) : Except FileError (FileTree × List String) :=
  match enter t l.dir with
  | .error e => .error e
  | .ok inside =>
    match programPath inside l.program with
    | .error e => .error e
    | .ok path =>
      match shellArguments inside path l.args with
      | .error e => .error e
      | .ok args => .ok (inside, args)

def start : Host := fun t l =>
  match prepare t l with
  | .error e => (t, .error e)
  | .ok (inside, args) =>
    let (after, outcome) := runShell inside l.environment args
    ({ after with cwd := t.cwd }, .ok outcome)

end Launch

end BuildPlan
