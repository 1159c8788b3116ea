import BuildPlan.Files.Tree
import BuildPlan.TestRun.Verdict

/-!
# Running tests

A test runs a program with the arguments of its record in the directory of the project, and is
judged by what the program did. That is up to the host that the program is started on.
-/

namespace BuildPlan

/-- A program that is to be started. -/
structure Launch where
  /-- The directory that it runs in. -/
  dir : String
  program : String
  args : List String
  environment : List (String × String)
  deriving DecidableEq, Repr

/-- What starts programs: it gives the tree that a program leaves and what the program did, or else
why it could not be started. -/
abbrev Host := FileTree → Launch → FileTree × Except FileError Outcome

namespace TestRun

/-- Why a test cannot be run. -/
inductive StartError where
  | unstarted (program : String) (reason : FileError)
  deriving DecidableEq, Repr

def StartError.message : StartError → String
  | unstarted program reason => "failed to start " ++ program ++ ": " ++ reason.message

def launch (root program : String) (record : TestRecord) : Launch :=
  { dir := root, program, args := argumentsOf record.arguments, environment := [sanitizerVariable] }

def execute (host : Host) (t : FileTree) (root program : String) (record : TestRecord) :
    FileTree × Except StartError Outcome :=
  match host t (launch root program record) with
  | (t, .error e) => (t, .error (.unstarted program e))
  | (t, .ok outcome) => (t, .ok outcome)

def run (host : Host) (t : FileTree) (root program : String) (record : TestRecord) :
    FileTree × Except StartError Verdict :=
  match execute host t root program record with
  | (t, .error e) => (t, .error e)
  | (t, .ok outcome) => (t, .ok (verdict record outcome))

end TestRun

end BuildPlan
