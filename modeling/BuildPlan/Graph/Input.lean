import BuildPlan.Fixture.Definition
import BuildPlan.Project.Locate
import BuildPlan.Record.Basic
import BuildPlan.Scenario.Compiled
import BuildPlan.Toolchain.Selection

/-!
# What a build graph is made from

A project, a toolchain, the tools that build commands call, and the tests. From these follow the
names of everything that is built in the build directory.
-/

namespace BuildPlan

/-- The paths of the three tools. -/
structure ToolPaths where
  /-- Writes the manifests. -/
  generator : String
  /-- Packs headers and the library. -/
  packer : String
  /-- Runs a test. -/
  runner : String
  deriving DecidableEq, Repr

namespace ToolPaths

def inDirectory (dir : String) : ToolPaths :=
  let program (name : String) : String := Path.join dir (name ++ Platform.host.programSuffix)
  ⟨program "kiln-gen", program "kiln-pack", program "kiln-testrun"⟩

end ToolPaths

namespace Graph

/-- What one build graph is made from. -/
structure Input where
  project : Project
  toolchain : Toolchain
  tools : ToolPaths
  /-- Relative to the project. -/
  buildDirectory : String
  /-- The headers that the compiler carries, relative to the project. -/
  headers : List String := []
  /-- The directories whose listings matter, relative to the project. -/
  watchedDirectories : List String := []
  fixtures : List TestCase := []
  fuzzCases : List TestCase := []
  /-- With the scripts relative to the project. -/
  scenarios : List Scenario.Compiled := []

namespace Input

/-- The code generated for a calling convention. -/
def generatedCode (i : Input) (abi : Abi) : String :=
  i.project.codegen.output ++ "." ++ abi.tag ++ ".c"

/-- The generated code that the compiler links. -/
def linkedCode (i : Input) : String :=
  i.generatedCode i.toolchain.platform.abi

def assemblerTool (i : Input) : String :=
  i.toolchain.program i.project.codegen.toolStem

def compiler (i : Input) : String :=
  i.toolchain.program i.project.general.name

/-- The way from the build directory to the project. -/
def wayUp (i : Input) : String :=
  Text.joinWith "/" (List.replicate (max (Path.components i.buildDirectory).length 1) "..")

def librarySource (i : Input) : String :=
  i.project.library.dir ++ "/" ++ i.project.library.name ++ ".c"

def libraryHeader (i : Input) : String :=
  i.project.library.dir ++ "/" ++ i.project.library.name ++ ".h"

def libraryLicense (i : Input) : String :=
  i.project.library.dir ++ "/LICENSE"

def libraryObject (i : Input) : String :=
  i.project.library.name ++ i.toolchain.platform.objectSuffix

def driverFile (_ : Input) (s : Scenario.Compiled) : String :=
  s.scriptName ++ ".driver.c"

def driverProgram (i : Input) (s : Scenario.Compiled) : String :=
  i.toolchain.program (s.scriptName ++ ".driver")

end Input

end Graph

end BuildPlan
