import BuildPlan.Fixture.Directive
import BuildPlan.Record.Basic
import BuildPlan.Text.Line
import BuildPlan.Text.Quoted

/-!
# Test definitions

The directives of a fixture are folded in order: the last argument line and the last status count,
the expected output is collected line by line, and one directive is enough to disable the fixture.
In the arguments and in the output `{self}` stands for the fixture's path.
-/

namespace BuildPlan

structure TestCase where
  /-- Relative to the project. -/
  path : String
  arguments : String
  status : RequiredStatus
  /-- The expected output; empty where it does not matter. -/
  output : String
  enabled : Bool
  deriving DecidableEq, Repr

namespace TestCase

/-- What the runner is told about the test. -/
def record (t : TestCase) : TestRecord :=
  TestRecord.current t.arguments t.status t.output

end TestCase

namespace Fixture

/-- A status that cannot be read, and the number of its line. -/
structure BadStatus where
  line : Nat
  value : String
  deriving DecidableEq, Repr

def BadStatus.message (e : BadStatus) (path : String) : String :=
  path ++ ":" ++ Nat.repr e.line ++ ": malformed RET value " ++ Text.quoted e.value ++
    " (expected an integer or NOCRASH)"

/-- What the directives so far say. -/
structure Expectation where
  arguments : String
  status : RequiredStatus := .exit 0
  output : String := ""
  enabled : Bool := true
  deriving DecidableEq, Repr

/-- Takes in a line with the given number. -/
def Expectation.step (e : Expectation) (number : Nat) (line : List Char) :
    Except BadStatus Expectation :=
  match Directive.ofLine? line with
  | none => .ok e
  | some (.run value) => .ok { e with arguments := value }
  | some (.ret value) =>
    match RequiredStatus.parse? value with
    | some status => .ok { e with status := status }
    | none => .error ⟨number, value⟩
  | some (.txt value) => .ok { e with output := e.output ++ value ++ "\n" }
  | some .disabled => .ok { e with enabled := false }

/-- Takes in lines of which the first has the given number. -/
def Expectation.steps (e : Expectation) (number : Nat) :
    List (List Char) → Except BadStatus Expectation
  | [] => .ok e
  | line :: rest =>
    match e.step number line with
    | .error err => .error err
    | .ok e => e.steps (number + 1) rest

/-- What stands for the fixture's path. -/
def selfMark : List Char := ['\x7b', 's', 'e', 'l', 'f', '\x7d']

/-- The text with the fixture's path in place of its mark. -/
def substituteSelf (path s : String) : String :=
  String.ofList (Text.replace selfMark path.toList s.toList)

/-- The definition that the text of a fixture gives. -/
def testCase (path contents fallbackArguments : String) : Except BadStatus TestCase :=
  match Expectation.steps { arguments := fallbackArguments } 1 (Text.lines contents.toList) with
  | .error err => .error err
  | .ok e =>
    .ok ⟨path, substituteSelf path e.arguments, e.status, substituteSelf path e.output, e.enabled⟩

end Fixture

end BuildPlan
