import BuildPlan.Project.Basic

/-!
# Checking projects

The sections of a project have to fit each other: the compiler has a name and sources, no source is
listed twice, the consumer of the packed header is one of them, an item of the library that comes
from the build directory is that header, and the patterns of the tests can be read. The first flaw
in this order is reported.
-/

namespace BuildPlan.Project

/-- Checks the sources behind those with the paths `seen`. -/
def checkSources (seen : List String) : List Source → Except Flaw Unit
  | [] => .ok ()
  | source :: rest =>
    match source.variant? with
    | .error e => .error e
    | .ok _ =>
      if seen.contains source.path then .error (.listedTwice source.path)
      else checkSources (source.path :: seen) rest

/-- Checks the consumer of the packed header. -/
def checkConsumer (p : Project) : Except Flaw Unit :=
  match p.includes.consumer with
  | none => .ok ()
  | some consumer =>
    if p.sources.any (·.path == consumer) then .ok () else .error (.unknownConsumer consumer)

/-- Checks the further files of the library. -/
def checkItems (generated : String) : List Item → Except Flaw Unit
  | [] => .ok ()
  | item :: rest =>
    match item.base? with
    | .error e => .error e
    | .ok base =>
      if base = .out ∧ item.path ≠ generated then .error (.notGenerated item.path)
      else checkItems generated rest

def check (p : Project) : Except Flaw Unit := do
  if p.general.name.isEmpty then throw .emptyName
  if p.sources.isEmpty then throw .withoutSources
  checkSources [] p.sources
  p.checkConsumer
  checkItems p.includes.output p.library.items
  let _ ← p.tests.fixtureNames
  let _ ← p.tests.scenarioNames
  pure ()

end BuildPlan.Project
