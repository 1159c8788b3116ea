import BuildPlan.Graph.Rules
import BuildPlan.Ninja.Render
import BuildPlan.Record.Token

/-!
# Build graphs

The manifest of one build directory. Its edges come in the order of the build: generated code,
objects, packed headers, the library, the compiler and its tool, the tests, the scenarios, and at
last the target of all tests and the edge by which the manifest is written anew. A flaw of the
project counts where its edge would stand, so whichever is met first is reported.
-/

namespace BuildPlan.Graph

open Ninja (Edge EscapedPath Manifest ManifestError)
open Project (Flaw)

/-- Why there is no build graph. -/
inductive GraphError where
  | flaw (reason : Flaw)
  | manifest (buildDirectory : String) (reason : ManifestError)
  deriving DecidableEq, Repr

def GraphError.message : GraphError → String
  | flaw reason => reason.message
  | manifest dir reason => "invalid manifest for " ++ dir ++ ": " ++ reason.message

def manifestFile : String := "build.ninja"

/-- The target of all tests. -/
def allTests : String := "test"

/-- A path below the project. -/
def inProject (path : String) : EscapedPath :=
  .below projectVariable path

/-- A path below the source directory. -/
def inSources (path : String) : EscapedPath :=
  .below sourceVariable path

/-- The path of a further file of the library. -/
def itemPath (path : String) : Project.Base → EscapedPath
  | .src => inSources path
  | .top => inProject path
  | .out => .literal path

namespace Input

/-! ## The compiler -/

def codegenEdges (i : Input) : List Edge :=
  Abi.all.map fun abi =>
    { rule := RuleName.generateCode.text
      outputs := [.literal (i.generatedCode abi)]
      inputs := [inSources i.project.codegen.input]
      implicit := [.literal i.assemblerTool, inSources i.project.codegen.script]
      bindings := [(conventionVariable, abi.symbol)] }

/-- The object of the generated code. -/
def hostObject (i : Input) : String :=
  i.toolchain.objectOf i.linkedCode

def hostEdge (i : Input) : Edge :=
  { rule := RuleName.compileSource.text
    outputs := [.literal i.hostObject]
    inputs := [.literal i.linkedCode] }

/-- Whether a source with the given variant is compiled. -/
def takes (i : Input) : Option Project.Variant → Bool
  | none => true
  | some v => v.isIn i.toolchain.profile.fuzzes

def sourceEdge (i : Input) (s : Project.Source) : Edge :=
  { rule := RuleName.compileSource.text
    outputs := [.literal (i.toolchain.objectOf s.path)]
    inputs := [inSources s.path]
    implicit :=
      if i.project.includes.consumer = some s.path then [.literal i.project.includes.output]
      else [] }

/-- The edges for sources, where a source with a flaw stands for its flaw. -/
def sourceEdgesFrom (i : Input) : List Project.Source → List (Except Flaw Edge)
  | [] => []
  | s :: rest =>
    match s.variant? with
    | .error e => .error e :: sourceEdgesFrom i rest
    | .ok v =>
      if i.takes v then .ok (i.sourceEdge s) :: sourceEdgesFrom i rest
      else sourceEdgesFrom i rest

def compiledSources (i : Input) : List Project.Source :=
  i.project.sources.filter fun s =>
    match s.variant? with
    | .ok v => i.takes v
    | .error _ => false

/-- The objects that the compiler is linked from. -/
def objects (i : Input) : List String :=
  i.hostObject :: i.compiledSources.map fun s => i.toolchain.objectOf s.path

def headerEdge (i : Input) : Edge :=
  { rule := RuleName.packHeaders.text
    outputs := [.literal i.project.includes.output]
    inputs := i.headers.map inProject
    implicit := [.literal i.tools.packer] }

def linkEdge (i : Input) : Edge :=
  { rule := RuleName.linkCompiler.text
    outputs := [.literal i.compiler]
    inputs := i.objects.map .literal }

/-- The edge that builds the tool for generated code. -/
def toolEdge (i : Input) : Edge :=
  { rule := RuleName.compileTool.text
    outputs := [.literal i.assemblerTool]
    inputs := [inSources i.project.codegen.tool] }

/-! ## The library -/

/-- The paths of further files of the library. -/
def itemPaths (items : List Project.Item) : Except Flaw (List EscapedPath) :=
  items.mapM fun item =>
    match item.base? with
    | .ok base => .ok (itemPath item.path base)
    | .error e => .error e

/-- The files that the library is made of, in order. -/
def libraryInputs (i : Input) : Except Flaw (List EscapedPath) :=
  match itemPaths i.project.library.prelude, itemPaths i.project.library.epilogue with
  | .error e, _ => .error e
  | .ok _, .error e => .error e
  | .ok before, .ok after =>
    .ok (before ++ i.project.sharedSources.map (fun s => inSources s.path) ++ after)

def libraryEdge (i : Input) : Except Flaw Edge :=
  match i.libraryInputs with
  | .error e => .error e
  | .ok inputs =>
    .ok {
      rule := RuleName.joinLibrary.text
      outputs :=
        [.literal i.librarySource, .literal i.libraryHeader, .literal i.libraryLicense]
      inputs := inputs
      implicit := Abi.all.map (fun abi => .literal (i.generatedCode abi)) ++
        [inSources i.project.library.header, inProject i.project.library.license,
          .literal i.tools.packer, inProject Project.projectFile] }

def libraryObjectEdge (i : Input) : Edge :=
  { rule := RuleName.compileSource.text
    outputs := [.literal i.libraryObject]
    inputs := [.literal i.librarySource] }

/-! ## The tests -/

/-- The edge of a test; a fixture also needs the support file. -/
def testEdge (i : Input) (isFixture : Bool) (t : TestCase) : Edge :=
  { rule := RuleName.runTest.text
    outputs := [.literal t.path]
    inputs := [inProject t.path]
    implicit := .literal i.compiler ::
      if isFixture then [inProject i.project.tests.support] else []
    bindings := [(recordVariable, t.record.token)] }

/-- The edges of a scenario: its driver, and the driver's run. -/
def scenarioEdges (i : Input) (s : Scenario.Compiled) : List Edge :=
  [{ rule := RuleName.compileDriver.text
     outputs := [.literal (i.driverProgram s)]
     inputs := [.literal (i.driverFile s), .literal i.libraryObject]
     implicit := [.literal i.libraryHeader] },
   { rule := RuleName.runDriver.text
     outputs := [.literal s.script]
     inputs := [.literal (i.driverProgram s)] }]

def allOutputs (i : Input) : List EscapedPath :=
  (i.fixtures.map (·.path) ++ i.fuzzCases.map (·.path) ++ i.scenarios.map (·.script)).map .literal

def allTestsEdge (i : Input) : Edge :=
  { rule := Ninja.phony
    outputs := [.literal allTests]
    inputs := i.allOutputs }

/-! ## The manifest -/

/-- The edge that writes the manifest anew. -/
def regenEdge (i : Input) : Edge :=
  { rule := RuleName.regenerate.text
    outputs := [.literal manifestFile]
    implicit := [inProject Project.projectFile, .literal i.tools.generator] ++
      (i.watchedDirectories ++ i.fixtures.map (·.path) ++ i.fuzzCases.map (·.path) ++
        i.scenarios.map (·.script)).map inProject }

def edges (i : Input) : List (Except Flaw Edge) :=
  i.codegenEdges.map .ok ++ [.ok i.hostEdge] ++ i.sourceEdgesFrom i.project.sources ++
  [.ok i.headerEdge, i.libraryEdge, .ok i.libraryObjectEdge, .ok i.linkEdge, .ok i.toolEdge] ++
  (i.fixtures.map (i.testEdge true) ++ i.fuzzCases.map (i.testEdge false) ++
    i.scenarios.flatMap i.scenarioEdges ++ [i.allTestsEdge, i.regenEdge]).map .ok

def preamble (i : Input) : Manifest :=
  { comments :=
      ["Generated by kiln-gen from " ++ Project.projectFile ++ ". Do not edit.",
        "platform: " ++ i.toolchain.platform.name ++ ", profile: " ++ i.toolchain.profile.name]
    vars :=
      [(projectVariable, i.wayUp),
        (sourceVariable, "$" ++ projectVariable ++ "/" ++ i.project.general.src)] }

def pushRules (m : Manifest) : List Ninja.Rule → Except ManifestError Manifest
  | [] => .ok m
  | r :: rest =>
    match m.pushRule r with
    | .error e => .error e
    | .ok m => pushRules m rest

def pushEdges (buildDirectory : String) (m : Manifest) :
    List (Except Flaw Edge) → Except GraphError Manifest
  | [] => .ok m
  | .error e :: _ => .error (.flaw e)
  | .ok edge :: rest =>
    match m.pushEdge edge with
    | .error e => .error (.manifest buildDirectory e)
    | .ok m => pushEdges buildDirectory m rest

/-- The manifest, not yet checked as a whole. -/
def assemble (i : Input) : Except GraphError Manifest :=
  match pushRules i.preamble i.rules with
  | .error e => .error (.manifest i.buildDirectory e)
  | .ok m =>
    match pushEdges i.buildDirectory m i.edges with
    | .error e => .error e
    | .ok m => .ok (m.pushDefault (.literal i.compiler))

def manifest (i : Input) : Except GraphError Manifest :=
  match i.assemble with
  | .error e => .error e
  | .ok m =>
    match m.check with
    | .error e => .error (.manifest i.buildDirectory e)
    | .ok () => .ok m

end Input

end BuildPlan.Graph
