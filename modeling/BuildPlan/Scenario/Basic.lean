import BuildPlan.Text.Numeral

/-!
# Update scenarios

A scenario is a set of files that a compiler manages, and the steps of a session with it: new
contents for a file, or a call of the program with the result expected of it.
-/

namespace BuildPlan

namespace Scenario

/-- A file under management and its first contents. -/
structure TrackedFile where
  path : String
  contents : String
  deriving DecidableEq, Repr

/-- The line of a script that an expectation comes from. -/
structure ScriptLine where
  script : String
  line : Nat
  deriving DecidableEq, Repr

def ScriptLine.text (o : ScriptLine) : String :=
  o.script ++ ":" ++ Nat.repr o.line

/-- One step of a session. -/
inductive Step where
  /-- Hands over new contents of a file. -/
  | update (file contents : String)
  /-- Calls the entry point and compares its result. -/
  | expect (value : Int32) (source : ScriptLine)
  deriving DecidableEq, Repr

/-- The entry point of a scenario that names none. -/
def usualEntry : String := "main"

end Scenario

/-- A scenario. -/
structure Scenario where
  /-- The name of the script. -/
  name : String
  /-- In the order of declaration. -/
  files : List Scenario.TrackedFile
  includePaths : List String
  /-- The functions of the driver that the compiled code may call. -/
  hostHelpers : List String
  /-- C code of the driver itself. -/
  hostCode : List String
  entry : String
  steps : List Scenario.Step
  deriving DecidableEq, Repr

end BuildPlan
