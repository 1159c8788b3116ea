import BuildPlan.Generation.Error
import BuildPlan.Project.Validation

/-!
# Collecting inputs

What the build graphs of a project are made from, read off its files: the headers that the compiler
carries, the directories whose listings matter, and the tests. Before that, every file that a build
reads by name has to be there.
-/

namespace BuildPlan

/-- What is read off the files of a project. -/
structure Inputs where
  /-- Relative to the project. -/
  headers : List String
  /-- Relative to the project. -/
  watchedDirectories : List String
  fixtures : List TestCase
  fuzzCases : List TestCase
  scenarios : List Scenario.Compiled
  deriving DecidableEq, Repr

namespace Inputs

open Project (Flaw)

/-! ## Required files -/

/-- The path of an item of the library in the project; none where a build makes it. -/
def itemInput (src : String) (item : Project.Item) : Except Flaw (Option String) :=
  match item.base? with
  | .error e => .error e
  | .ok .src => .ok (some (Path.join src item.path))
  | .ok .top => .ok (some item.path)
  | .ok .out => .ok none

/-- The files and directories that a build reads by name, relative to the project. -/
def required (p : Project) (tools : ToolPaths) : Except Flaw (List String) :=
  let src := p.general.src
  match p.library.items.mapM (itemInput src) with
  | .error e => .error e
  | .ok items =>
    .ok ((p.sources.map (·.path) ++
        [p.codegen.input, p.codegen.tool, p.codegen.script, p.library.header]).map
          (Path.join src ·) ++
      p.library.license :: items.filterMap id ++
      [p.includes.dir, p.tests.dir, p.tests.support, tools.packer, tools.runner])

/-- Fails with the first required path that is not there. -/
def checkRequired (t : FileTree) (root : String) (p : Project) (tools : ToolPaths) :
    Except GenerationError Unit :=
  match required p tools with
  | .error e => .error (.flaw e)
  | .ok paths =>
    match (paths.map (Path.join root ·)).find? (!t.pathExists ·) with
    | some path => .error (.absentInput path)
    | none => .ok ()

/-! ## Headers and watched directories -/

/-- A path below the project, relative to it. -/
def relative (root path : String) : String :=
  Path.joinComponents (Path.components ((Path.stripBase? path root).getD path))

def isHeader (item : String × Item) : Bool :=
  match item with
  | (path, .file _ _) => Path.extension? path == some "h"
  | (_, .directory) => false

def isDirectory (item : String × Item) : Bool :=
  item.2 == .directory

/-- The headers below the include directory and the directories that hold them, the include
directory first. -/
def walkIncludes (t : FileTree) (root dir : String) :
    Except GenerationError (List String × List String) :=
  let full := Path.join root dir
  match t.walk full with
  | .error e => .error (.unwalked full e)
  | .ok items =>
    .ok ((items.filter isHeader).map (relative root ·.1),
      (items.filter isDirectory).map (relative root ·.1))

/-- The paths and those of further paths that they lack, where only the components of a path
count. -/
def addNew : List String → List String → List String
  | dirs, [] => dirs
  | dirs, d :: rest =>
    if dirs.any (Path.components · == Path.components d) then addNew dirs rest
    else addNew (dirs ++ [d]) rest

/-- The directories whose listings matter. A new file changes the listing of its own directory only,
so each directory counts for itself. -/
def watched (t : FileTree) (root : String) (p : Project) (includeDirs : List String) :
    List String :=
  let fuzz := p.tests.fuzz.toList.filter fun dir => t.isDirectory (Path.join root dir)
  addNew (p.tests.dir :: fuzz) includeDirs

/-! ## Tests -/

/-- Compiles a script, and names it relative to the project. -/
def scenarioOf (t : FileTree) (root script : String) :
    Except GenerationError Scenario.Compiled :=
  match Scenario.Compiled.ofScript t (Path.join root script) with
  | .error e => .error (.scenario e)
  | .ok compiled => .ok { compiled with script := script }

def scenariosOf (t : FileTree) (root : String) (p : Project) :
    Except GenerationError (List Scenario.Compiled) :=
  match p.tests.scenarioScripts t root with
  | .error e => .error (.testFiles e)
  | .ok scripts => scripts.mapM (scenarioOf t root)

/-- The fuzz cases of a project, if they can run. -/
def fuzzCasesFor (t : FileTree) (root : String) (p : Project) (platform : Platform) :
    Except TestFilesError (List TestCase) :=
  if platform.profiles.any Profile.fuzzes then p.tests.fuzzInputs t root else .ok []

/-! ## All inputs -/

def collect (t : FileTree) (root : String) (p : Project) (platform : Platform) :
    Except GenerationError Inputs := do
  let (headers, includeDirs) ← walkIncludes t root p.includes.dir
  let fixtures ← (p.tests.enabledFixtures t root).mapError .testFiles
  let fuzzCases ← (fuzzCasesFor t root p platform).mapError .testFiles
  let scenarios ← scenariosOf t root p
  return {
    headers := headers
    watchedDirectories := watched t root p includeDirs
    fixtures := fixtures
    fuzzCases := fuzzCases
    scenarios := scenarios }

end Inputs

end BuildPlan
