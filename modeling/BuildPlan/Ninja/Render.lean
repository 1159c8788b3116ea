import BuildPlan.Ninja.Manifest
import BuildPlan.Text.Split

/-!
# Manifests as text

The comment comes first, then the variables, each block closed by a blank line, then the rules, each
with a blank line behind it, the edges, and behind a blank line the default targets.
-/

namespace BuildPlan.Ninja

def showPaths (paths : List EscapedPath) : String :=
  Text.joinWith " " (paths.map EscapedPath.text)

def field (name value : String) : String :=
  "  " ++ name ++ " = " ++ value

def Rule.lines (r : Rule) : List String :=
  ["rule " ++ r.name, field "command" r.command] ++
  (r.description.map (field "description")).toList ++
  (r.deps.map (field "deps")).toList ++
  (r.depfile.map (field "depfile")).toList ++
  (if r.generator then [field "generator" "1"] else []) ++
  (if r.restat then [field "restat" "1"] else [])

/-- Paths behind a mark, or nothing where there are none. -/
def group (mark : String) (paths : List EscapedPath) : String :=
  if paths.isEmpty then "" else mark ++ showPaths paths

def Edge.lines (e : Edge) : List String :=
  ("build " ++ showPaths e.outputs ++ ": " ++ e.rule ++ group " " e.inputs ++
    group " | " e.implicit ++ group " || " e.orderOnly) ::
  e.bindings.map fun (name, value) => field name value

/-- A block of lines with a blank line behind it, or nothing where there are none. -/
def block (lines : List String) : List String :=
  if lines.isEmpty then [] else lines ++ [""]

def Manifest.lines (m : Manifest) : List String :=
  block (m.comments.map ("# " ++ ·)) ++
  block (m.vars.map fun (name, value) => name ++ " = " ++ value) ++
  m.rules.flatMap (fun r => block r.lines) ++
  m.edges.flatMap Edge.lines ++
  (if m.defaults.isEmpty then [] else ["", "default " ++ showPaths m.defaults])

def Manifest.render (m : Manifest) : String :=
  Text.unlines m.lines

end BuildPlan.Ninja
