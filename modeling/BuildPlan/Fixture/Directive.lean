import BuildPlan.Text.Blank
import BuildPlan.Text.Search

/-!
# Directives in fixtures

A fixture says what is expected of it in comments at the very start of a line. The value of a
directive is the rest of its line without trailing blanks; any other line is no directive.
-/

namespace BuildPlan.Fixture

/-- A line that says something about its fixture. -/
inductive Directive where
  /-- The arguments to run with. -/
  | run (value : String)
  /-- The expected exit status, not yet read. -/
  | ret (value : String)
  /-- A line of expected output. -/
  | txt (value : String)
  /-- The fixture is not run. -/
  | disabled
  deriving DecidableEq, Repr

namespace Directive

/-- The value behind a mark. -/
def valueOf (rest : List Char) : String :=
  String.ofList (Text.trimEnd rest)

def ofLine? (line : List Char) : Option Directive :=
  match Text.stripStart? "// RUN: ".toList line with
  | some rest => some (run (valueOf rest))
  | none =>
    match Text.stripStart? "// RET: ".toList line with
    | some rest => some (ret (valueOf rest))
    | none =>
      match Text.stripStart? "// TXT: ".toList line with
      | some rest => some (txt (valueOf rest))
      | none => (Text.stripStart? "// DISABLED".toList line).map fun _ => disabled

end Directive

end BuildPlan.Fixture
