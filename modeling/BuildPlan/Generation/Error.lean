import BuildPlan.Graph.Manifest
import BuildPlan.Project.Locate
import BuildPlan.Project.TestFiles

/-!
# Generation errors

Why the build files of a project cannot be generated. Each stage has errors of its own; here they
are told apart by the stage.
-/

namespace BuildPlan

/-- Why generation fails. -/
inductive GenerationError where
  | load (reason : Project.LoadError)
  | flaw (reason : Project.Flaw)
  | toolchain (reason : ToolchainError)
  /-- A file or directory that the build reads is not there. -/
  | absentInput (path : String)
  | unwalked (path : String) (reason : FileError)
  | testFiles (reason : TestFilesError)
  | scenario (reason : Scenario.CompileError)
  | graph (reason : Graph.GraphError)
  | unwritten (path : String) (reason : FileError)
  deriving DecidableEq, Repr

namespace GenerationError

def message : GenerationError → String
  | load reason => reason.message
  | flaw reason => reason.message
  | toolchain reason => reason.message
  | absentInput path => "required input " ++ path ++ " does not exist"
  | unwalked path reason =>
    "failed to walk " ++ path ++ ": IO error for operation on " ++ path ++ ": " ++ reason.message
  | testFiles reason => reason.message
  | scenario reason => reason.message
  | graph reason => reason.message
  | unwritten path reason => "failed to write " ++ path ++ ": " ++ reason.message

end GenerationError

end BuildPlan
