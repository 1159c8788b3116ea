import BuildPlan.Files.Tree
import BuildPlan.Scenario.Driver
import BuildPlan.Scenario.Script

/-!
# Compiled scenarios

A script together with its scenario and driver. The file name of the script is the scenario's name.
-/

namespace BuildPlan.Scenario

/-- Why a script cannot be compiled. -/
inductive CompileError where
  | unreadable (path : String) (reason : FileError)
  | script (reason : ScriptError)
  deriving DecidableEq, Repr

def CompileError.message : CompileError → String
  | unreadable path reason => "failed to read " ++ path ++ ": " ++ reason.message
  | script reason => reason.message

/-- A script with what comes of it. -/
structure Compiled where
  /-- The path of the script. -/
  script : String
  scenario : Scenario
  /-- The text of the driver. -/
  driver : String
  deriving DecidableEq, Repr

/-- The file name of a path, or the whole path where it has none. -/
def nameOf (path : String) : String :=
  (Path.fileName? path).getD path

def Compiled.scriptName (c : Compiled) : String :=
  nameOf c.script

def Compiled.ofScript (t : FileTree) (path : String) : Except CompileError Compiled :=
  match t.readText path with
  | .error e => .error (.unreadable path e)
  | .ok source =>
    match parse (nameOf path) source with
    | .error e => .error (.script e)
    | .ok s => .ok ⟨path, s, s.driver⟩

end BuildPlan.Scenario
