import BuildPlan.Files.Write
import BuildPlan.Generation.Inputs

/-!
# Generation plans

The files to be generated for a project, planned as a whole before any of them is written: for each
profile of the platform the drivers of the scenarios and the manifest. A file that holds what it
should already is left alone, so a second generation changes nothing.
-/

namespace BuildPlan

/-- A file to be generated. -/
structure GeneratedFile where
  path : String
  contents : String
  deriving DecidableEq, Repr

/-- What became of the planned files, by path. -/
structure GenerationReport where
  written : List String := []
  unchanged : List String := []
  deriving DecidableEq, Repr

namespace Generation

/-! ## Planning -/

/-- What the build graph of a toolchain is made from. Fuzz cases only run where fuzzing is built
in. -/
def inputFor (p : Project) (tools : ToolPaths) (inputs : Inputs) (toolchain : Toolchain) :
    Graph.Input :=
  { project := p
    toolchain := toolchain
    tools := tools
    buildDirectory := p.general.out ++ "/" ++ toolchain.tag
    headers := inputs.headers
    watchedDirectories := inputs.watchedDirectories
    fixtures := inputs.fixtures
    fuzzCases := if toolchain.profile.fuzzes then inputs.fuzzCases else []
    scenarios := inputs.scenarios }

/-- The files of one build directory: the drivers, then the manifest. -/
def planDirectory (root : String) (i : Graph.Input) : Except GenerationError (List GeneratedFile) :=
  match i.manifest with
  | .error e => .error (.graph e)
  | .ok manifest =>
    let dir := Path.join root i.buildDirectory
    .ok (i.scenarios.map (fun s => ⟨Path.join dir (i.driverFile s), s.driver⟩) ++
      [⟨Path.join dir Graph.manifestFile, manifest.render⟩])

def planProfile (root : String) (p : Project) (tools : ToolPaths) (platform : Platform)
    (inputs : Inputs) (profile : Profile) : Except GenerationError (List GeneratedFile) :=
  match Toolchain.forProfile platform profile with
  | .error e => .error (.toolchain e)
  | .ok toolchain => planDirectory root (inputFor p tools inputs toolchain)

def loadProject (read : Project.Reader) (t : FileTree) (root : String) :
    Except GenerationError Project := do
  let p ← (Project.load read t (Path.join root Project.projectFile)).mapError .load
  p.check.mapError .flaw
  return p

/-- The files to be generated for the project at a root. -/
def plan (read : Project.Reader) (t : FileTree) (root : String) (tools : ToolPaths)
    (platform : Platform) : Except GenerationError (List GeneratedFile) := do
  let p ← loadProject read t root
  Inputs.checkRequired t root p tools
  let inputs ← Inputs.collect t root p platform
  let files ← platform.profiles.mapM (planProfile root p tools platform inputs)
  return files.flatten

/-! ## Writing -/

def report (r : GenerationReport) (path : String) : FileTree.WriteEffect → GenerationReport
  | .written => { r with written := r.written ++ [path] }
  | .unchanged => { r with unchanged := r.unchanged ++ [path] }

/-- Writes planned files in order, up to the first that cannot be written. -/
def writePlan (t : FileTree) (r : GenerationReport) :
    List GeneratedFile → FileTree × Except GenerationError GenerationReport
  | [] => (t, .ok r)
  | file :: rest =>
    match t.update file.path (Text.toUtf8 file.contents) with
    | (t, .error e) => (t, .error (.unwritten file.path e))
    | (t, .ok outcome) => writePlan t (report r file.path outcome) rest

/-- Generates the build files of the project at a root. -/
def run (read : Project.Reader) (t : FileTree) (root : String) (tools : ToolPaths)
    (platform : Platform) : FileTree × Except GenerationError GenerationReport :=
  match plan read t root tools platform with
  | .error e => (t, .error e)
  | .ok files => writePlan t {} files

end Generation

end BuildPlan
