import BuildPlan.Record.Basic
import BuildPlan.Text.Search
import BuildPlan.Text.Split
import BuildPlan.Text.Utf8

/-!
# Judging a test

What a process did is its output and how it ended: by a status, or by a signal. A process ends
normally when its status is one that a program can return and not the one by which the sanitizer
reports an error. Whatever else a test expects, an end that is not normal is a crash; but where the
output is compared, a difference is reported before the end is looked at.
-/

namespace BuildPlan

/-- How a process ended: by a status, or by a signal. -/
abbrev EndStatus := Option Int32

/-- What a process did. -/
structure Outcome where
  stdout : Bytes
  status : EndStatus
  deriving DecidableEq, Repr

/-- The result of a test. -/
inductive Verdict where
  | pass
  /-- The output differs from the expected text. -/
  | otherOutput (expected actual : String)
  /-- A normal end with another status. -/
  | otherStatus (expected actual : Int32)
  /-- An end that is not normal; no status where a signal caused it. -/
  | crash (status : EndStatus)
  deriving DecidableEq, Repr

namespace Verdict

/-- The status by which the runner reports the verdict. -/
def reportStatus : Verdict → Nat
  | pass => 0
  | otherOutput _ _ => 1
  | otherStatus _ _ => 2
  | crash _ => 2

end Verdict

namespace TestRun

/-- The status by which the sanitizer reports an error. -/
def sanitizerStatus : Int32 := 117

/-- The variable that makes the sanitizer use its status. -/
def sanitizerVariable : String × String := ("ASAN_OPTIONS", "exitcode=117")

/-- The status of a runner that could not run its test. -/
def errorStatus : Nat := 2

def isNormal : EndStatus → Bool
  | some code => 0 ≤ code.toInt && code.toInt ≤ 255 && code != sanitizerStatus
  | none => false

def assess (status : EndStatus) (expected : RequiredStatus) : Verdict :=
  match status, expected with
  | none, _ => .crash none
  | some code, .noCrash => if isNormal (some code) then .pass else .crash (some code)
  | some code, .exit wanted =>
    if !isNormal (some code) then .crash (some code)
    else if code = wanted then .pass
    else .otherStatus wanted code

/-- The output as text, with line feeds alone between lines. -/
def normalOutput (stdout : Bytes) : String :=
  String.ofList (Text.replace ['\r', '\n'] ['\n'] (Text.ofUtf8Lossy stdout).toList)

def verdict (record : TestRecord) (outcome : Outcome) : Verdict :=
  if record.comparesOutput && normalOutput outcome.stdout != record.output then
    .otherOutput record.output (normalOutput outcome.stdout)
  else assess outcome.status record.status

/-- The arguments of an argument line: what stands between its spaces, empty parts included. -/
def argumentsOf (run : String) : List String :=
  (Text.split ' ' run.toList).map String.ofList

end TestRun

end BuildPlan
