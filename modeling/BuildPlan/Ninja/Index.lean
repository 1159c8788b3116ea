import BuildPlan.Ninja.Manifest

/-!
# Manifests with an index of writers

Each new edge is checked against the outputs of all earlier ones, so a manifest that is still growing
keeps the position of the edge that writes a path beside its edges. An edge is checked as a whole before
anything is changed, so a call that is refused hands back the manifest that it was given.
-/

namespace BuildPlan.Ninja

/-- A manifest, and for each path that is written the position of its edge. A later entry for a path
hides the earlier ones. -/
structure IndexedManifest extends Manifest where
  writers : List (EscapedPath × Nat) := []
  deriving DecidableEq, Repr

/-- What a call that changes a manifest answers. -/
abbrev Answer := Except ManifestError Unit

namespace IndexedManifest

def empty : IndexedManifest := {}

/-- The edge that writes a path, looked up by its position. -/
def producer? (m : IndexedManifest) (path : EscapedPath) : Option Edge :=
  (m.writers.lookup path).bind (m.edges[·]?)

/-! ## Growing -/

/-- Adds a line to the comment at the top. -/
def pushComment (m : IndexedManifest) (line : String) : IndexedManifest :=
  { m with toManifest := m.toManifest.pushComment line }

def pushVariable (m : IndexedManifest) (name value : String) : IndexedManifest :=
  { m with toManifest := m.toManifest.pushVariable name value }

def pushDefault (m : IndexedManifest) (path : EscapedPath) : IndexedManifest :=
  { m with toManifest := m.toManifest.pushDefault path }

/-- Declares a rule, unless its name is taken. -/
def pushRule (m : IndexedManifest) (rule : Rule) : IndexedManifest × Answer :=
  if rule.name = phony ∨ (m.declared? rule.name).isSome then (m, .error (.ruleTwice rule.name))
  else ({ m with rules := m.rules ++ [rule] }, .ok ())

/-- The first of the outputs `rest` of an edge that is written already, by an edge of the manifest or
by the edge itself among its outputs `before`. -/
def clashFrom (m : IndexedManifest) (edge : Edge) (before : List EscapedPath) :
    (rest : List EscapedPath) → Option ManifestError
  | [] => none
  | output :: rest =>
    match m.producer? output with
    | some writer => some (.outputTwice output.text writer.rule edge.rule)
    | none =>
      if before.contains output then some (.outputTwice output.text edge.rule edge.rule)
      else m.clashFrom edge (output :: before) rest

/-- The index with a position for each of the paths. -/
def register (position : Nat) (paths : List EscapedPath) (writers : List (EscapedPath × Nat)) :
    List (EscapedPath × Nat) :=
  paths.foldl (fun writers path => (path, position) :: writers) writers

/-- Adds an edge, unless it has no output or one that is written already. -/
def pushEdge (m : IndexedManifest) (edge : Edge) : IndexedManifest × Answer :=
  if edge.outputs.isEmpty then (m, .error (.withoutOutput edge.rule))
  else
    match m.clashFrom edge [] edge.outputs with
    | some e => (m, .error e)
    | none =>
      ({ m with
          edges := m.edges ++ [edge]
          writers := register m.edges.length edge.outputs m.writers }, .ok ())

end IndexedManifest

end BuildPlan.Ninja
