import BuildPlan.Text.Search

/-!
# The parts of a Ninja manifest

Rules, build edges and the paths they name. A path is escaped once, where it enters the manifest;
from then on two paths are the same when their escaped texts are.
-/

namespace BuildPlan.Ninja

/-- A character that a build line gives a meaning to. -/
def isSpecial (c : Char) : Bool :=
  c == '$' || c == ' ' || c == ':'

/-- A path with `$` in front of every special character. -/
def escape (path : String) : String :=
  String.ofList (path.toList.flatMap fun c => if isSpecial c then ['$', c] else [c])

/-- A path as it stands in a manifest. -/
structure EscapedPath where
  text : String
  deriving DecidableEq, Repr

namespace EscapedPath

/-- A path relative to the build directory. -/
def literal (path : String) : EscapedPath :=
  ⟨escape path⟩

/-- A path below the directory that a variable of the manifest holds. -/
def below (var path : String) : EscapedPath :=
  ⟨"$" ++ var ++ "/" ++ escape path⟩

end EscapedPath

/-- The rule that every manifest has without declaring it; it runs nothing. -/
def phony : String := "phony"

/-- A rule: how the outputs of an edge are made from its inputs. -/
structure Rule where
  name : String
  command : String
  description : Option String := none
  deps : Option String := none
  depfile : Option String := none
  /-- Whether the command writes the manifest itself. -/
  generator : Bool := false
  /-- Whether outputs that the command left alone count as up to date. -/
  restat : Bool := false
  deriving DecidableEq, Repr

/-- An edge: one use of a rule. -/
structure Edge where
  outputs : List EscapedPath
  rule : String
  /-- What the command reads by name. -/
  inputs : List EscapedPath := []
  /-- What else makes the outputs stale. -/
  implicit : List EscapedPath := []
  /-- What has to be there first and makes nothing stale. -/
  orderOnly : List EscapedPath := []
  /-- The variables of this edge alone. -/
  bindings : List (String × String) := []
  deriving DecidableEq, Repr

namespace Edge

/-- Everything that the edge reads, in any role. -/
def reads (e : Edge) : List EscapedPath :=
  e.inputs ++ e.implicit ++ e.orderOnly

def firstOutput (e : Edge) : String :=
  match e.outputs with
  | [] => ""
  | o :: _ => o.text

end Edge

end BuildPlan.Ninja
