import BuildPlan.Files.Tree
import BuildPlan.Fixture.Definition
import BuildPlan.Project.Basic

/-!
# Test files

Fixtures and scenarios are the files directly in the test directory whose names fit their pattern;
fuzz cases are all files directly in the directory of such. They come in the order of their names.
The file that is compiled with every fixture is no fixture itself, and a disabled fixture is left
out, but it still has to be well-formed.
-/

namespace BuildPlan

/-- Why the tests cannot be found. -/
inductive TestFilesError where
  | unlisted (path : String) (reason : FileError)
  | unreadable (path : String) (reason : FileError)
  | badStatus (path : String) (reason : Fixture.BadStatus)
  | flaw (reason : Project.Flaw)
  deriving DecidableEq, Repr

namespace TestFilesError

def message : TestFilesError → String
  | unlisted path reason =>
    "failed to list " ++ path ++ ": IO error for operation on " ++ path ++ ": " ++ reason.message
  | unreadable path reason => "failed to read " ++ path ++ ": " ++ reason.message
  | badStatus path reason => reason.message path
  | flaw reason => reason.message

end TestFilesError

namespace Project.Tests

/-- The paths of the files directly in a directory of the project whose names pass a test. -/
def filesIn (t : FileTree) (root dir : String) (fits : String → Bool) :
    Except TestFilesError (List String) :=
  let full := Path.join root dir
  match t.fileNames full with
  | .error e => .error (.unlisted full e)
  | .ok names => .ok ((names.filter fits).map fun name => dir ++ "/" ++ name)

def defineFixture (t : FileTree) (root fallbackArguments path : String) :
    Except TestFilesError TestCase :=
  let full := Path.join root path
  match t.readText full with
  | .error e => .error (.unreadable full e)
  | .ok contents =>
    match Fixture.testCase path contents fallbackArguments with
    | .error e => .error (.badStatus path e)
    | .ok d => .ok d

def enabledFixtures (tests : Tests) (t : FileTree) (root : String) :
    Except TestFilesError (List TestCase) :=
  match tests.fixtureNames with
  | .error e => .error (.flaw e)
  | .ok pattern =>
    match filesIn t root tests.dir pattern.fits with
    | .error e => .error e
    | .ok paths =>
      let read := defineFixture t root tests.fallbackArguments
      match (paths.filter (· != tests.support)).mapM read with
      | .error e => .error e
      | .ok definitions => .ok (definitions.filter TestCase.enabled)

def scenarioScripts (tests : Tests) (t : FileTree) (root : String) :
    Except TestFilesError (List String) :=
  match tests.scenarioNames with
  | .error e => .error (.flaw e)
  | .ok pattern => filesIn t root tests.dir pattern.fits

/-- The test that a fuzz case is: the compiler must not crash on it. -/
def fuzzCase (path : String) : TestCase :=
  ⟨path, path, .noCrash, "", true⟩

/-- The fuzz cases; none where their directory is not set or not there. -/
def fuzzInputs (tests : Tests) (t : FileTree) (root : String) :
    Except TestFilesError (List TestCase) :=
  match tests.fuzz with
  | none => .ok []
  | some dir =>
    if t.isDirectory (Path.join root dir) then
      match filesIn t root dir (fun _ => true) with
      | .error e => .error e
      | .ok paths => .ok (paths.map fuzzCase)
    else .ok []

end Project.Tests

end BuildPlan
