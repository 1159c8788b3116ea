import BuildPlan.Digraph
import BuildPlan.Ninja.Basic

/-!
# Ninja manifests

A manifest grows by rules and edges. A rule is refused when its name is taken, and an edge when it
has no output or one that has a writer already, so that each path has at most one writer. Whether
the whole can be built is checked at the end: every edge uses a declared rule, every default target
has a writer, and no edge needs its own output.
-/

namespace BuildPlan.Ninja

/-- Why a manifest cannot be extended or used. -/
inductive ManifestError where
  | ruleTwice (name : String)
  | outputTwice (path first second : String)
  | withoutOutput (rule : String)
  | undeclaredRule (rule output : String)
  | unwrittenDefault (path : String)
  | cycle (path : String)
  deriving DecidableEq, Repr

namespace ManifestError

def message : ManifestError → String
  | ruleTwice name => "rule " ++ name ++ " is declared twice"
  | outputTwice path first second =>
    path ++ " is produced by both a " ++ first ++ " edge and a " ++ second ++ " edge"
  | withoutOutput rule => "a " ++ rule ++ " edge has no outputs"
  | undeclaredRule rule output => "edge producing " ++ output ++ " uses undeclared rule " ++ rule
  | unwrittenDefault path => "default target " ++ path ++ " is not produced by any edge"
  | cycle path => "dependency cycle through " ++ path

end ManifestError

/-- A manifest, every list in the order of insertion. -/
structure Manifest where
  comments : List String := []
  vars : List (String × String) := []
  rules : List Rule := []
  edges : List Edge := []
  defaults : List EscapedPath := []
  deriving DecidableEq, Repr

def writer? (edges : List Edge) (path : EscapedPath) : Option Edge :=
  edges.find? (·.outputs.contains path)

/-- The first of the outputs `rest` of an edge that is written already, by an earlier edge or by the
edge itself among its outputs `before`. -/
def clashFrom (earlier : List Edge) (edge : Edge) (before : List EscapedPath) :
    (rest : List EscapedPath) → Option ManifestError
  | [] => none
  | output :: rest =>
    match writer? earlier output with
    | some writer => some (.outputTwice output.text writer.rule edge.rule)
    | none =>
      if before.contains output then some (.outputTwice output.text edge.rule edge.rule)
      else clashFrom earlier edge (output :: before) rest

/-- What stands against an edge behind earlier ones: an output that is written already. -/
def clash? (earlier : List Edge) (edge : Edge) : Option ManifestError :=
  clashFrom earlier edge [] edge.outputs

namespace Manifest

def empty : Manifest := {}

/-! ## Growing -/

/-- Adds a line to the comment at the top. -/
def pushComment (m : Manifest) (line : String) : Manifest :=
  { m with comments := m.comments ++ [line] }

def pushVariable (m : Manifest) (name value : String) : Manifest :=
  { m with vars := m.vars ++ [(name, value)] }

def declared? (m : Manifest) (name : String) : Option Rule :=
  m.rules.find? (·.name == name)

/-- Declares a rule, unless its name is taken. -/
def pushRule (m : Manifest) (rule : Rule) : Except ManifestError Manifest :=
  if rule.name = phony ∨ (m.declared? rule.name).isSome then .error (.ruleTwice rule.name)
  else .ok { m with rules := m.rules ++ [rule] }

/-- Adds an edge, unless it has no output or one that is written already. -/
def pushEdge (m : Manifest) (edge : Edge) : Except ManifestError Manifest :=
  if edge.outputs.isEmpty then .error (.withoutOutput edge.rule)
  else
    match clash? m.edges edge with
    | some e => .error e
    | none => .ok { m with edges := m.edges ++ [edge] }

def pushDefault (m : Manifest) (path : EscapedPath) : Manifest :=
  { m with defaults := m.defaults ++ [path] }

def producer? (m : Manifest) (path : EscapedPath) : Option Edge :=
  writer? m.edges path

/-! ## Checking -/

/-- Whether an edge may use a rule of this name. -/
def knowsRule (m : Manifest) (name : String) : Bool :=
  name == phony || (m.declared? name).isSome

/-- The first flaw of an edge: an undeclared rule, or an output with an earlier writer. -/
def checkEdges (m : Manifest) (earlier : List Edge) : List Edge → Except ManifestError Unit
  | [] => .ok ()
  | edge :: rest =>
    if m.knowsRule edge.rule then
      match clash? earlier edge with
      | some e => .error e
      | none => m.checkEdges (earlier ++ [edge]) rest
    else .error (.undeclaredRule edge.rule edge.firstOutput)

/-- The first default target without a writer is a flaw. -/
def checkDefaults (m : Manifest) : List EscapedPath → Except ManifestError Unit
  | [] => .ok ()
  | path :: rest =>
    if (m.producer? path).isSome then m.checkDefaults rest
    else .error (.unwrittenDefault path.text)

/-- The position of the edge that writes a path. -/
def writerIndex? (m : Manifest) (path : EscapedPath) : Option Nat :=
  m.edges.findIdx? (·.outputs.contains path)

/-- The graph of the edges, with an arc from the writer of a path to each edge for each time that it
reads the path. -/
def dependencies (m : Manifest) : Digraph where
  size := m.edges.length
  arcs := m.edges.zipIdx.flatMap fun (edge, reader) =>
    (edge.reads.filterMap m.writerIndex?).map fun writer => (writer, reader)

/-- A cycle of the graph is a flaw, named by the first output of an edge on it. -/
def checkCycles (m : Manifest) : Except ManifestError Unit :=
  match m.dependencies.cycleNode? with
  | none => .ok ()
  | some n => .error (.cycle ((m.edges[n]?.map Edge.firstOutput).getD ""))

/-- Whether the manifest can be built; otherwise its first flaw. -/
def check (m : Manifest) : Except ManifestError Unit := do
  m.checkEdges [] m.edges
  m.checkDefaults m.defaults
  m.checkCycles

end Manifest

end BuildPlan.Ninja
