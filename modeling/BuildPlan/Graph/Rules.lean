import BuildPlan.Graph.Input
import BuildPlan.Ninja.Basic
import BuildPlan.Text.Blank

/-!
# The rules of a build graph

One rule for each kind of step, in a fixed order. Commands refer to the project by the variable
`top` and to its source directory by `root`; a step that depends on the calling convention or on a
test is told by a variable of its edge.
-/

namespace BuildPlan.Graph

/-- The variable that holds the way to the project. -/
def projectVariable : String := "top"

/-- The variable that holds the way to the source directory. -/
def sourceVariable : String := "root"

/-- The edge variable that holds the calling convention. -/
def conventionVariable : String := "abi"

/-- The edge variable that holds the record of a test. -/
def recordVariable : String := "data"

/-- The names of the rules. -/
inductive RuleName where
  | compileSource
  | linkCompiler
  | compileTool
  | generateCode
  | joinLibrary
  | packHeaders
  | runTest
  | compileDriver
  | runDriver
  | regenerate
  deriving DecidableEq, Repr

def RuleName.text : RuleName → String
  | compileSource => "cc"
  | linkCompiler => "link"
  | compileTool => "toolcc"
  | generateCode => "codegen"
  | joinLibrary => "amalg"
  | packHeaders => "compincl"
  | runTest => "testrun"
  | compileDriver => "driverc"
  | runDriver => "runbin"
  | regenerate => "regen"

/-- A path with every `$` doubled. -/
def doubleDollars (path : String) : String :=
  String.ofList (path.toList.flatMap fun c => if c = '$' then ['$', '$'] else [c])

/-- The path of a tool in a command, between double quotes where it holds blanks. -/
def toolWord (path : String) : String :=
  let escaped := doubleDollars path
  if escaped.toList.any Text.isBlank then "\"" ++ escaped ++ "\"" else escaped

namespace Input

def libraryCommand (i : Input) : String :=
  let l := i.project.library
  toolWord i.tools.packer ++ " amalg --dir " ++ l.dir ++ " --name " ++ l.name ++
    " --header $root/" ++ l.header ++ " --license $top/" ++ l.license ++ " --switch " ++ l.switch ++
    " --win " ++ i.generatedCode .win64 ++ " --sysv " ++ i.generatedCode .sysV ++ " $in"

def command (i : Input) : RuleName → String
  | .compileSource => i.toolchain.commands.compile
  | .linkCompiler => i.toolchain.commands.link
  | .compileTool => i.toolchain.commands.tool
  | .generateCode =>
    "./" ++ i.assemblerTool ++ " $root/" ++ i.project.codegen.script ++ " -D $" ++
      conventionVariable ++ " -o $out $in"
  | .joinLibrary => i.libraryCommand
  | .packHeaders =>
    toolWord i.tools.packer ++ " compincl $top/" ++ i.project.includes.dir ++ " $out $in"
  | .runTest =>
    toolWord i.tools.runner ++ " $top " ++ i.buildDirectory ++ "/" ++ i.compiler ++ " $" ++
      recordVariable
  | .compileDriver => i.toolchain.commands.driver
  | .runDriver => "./$in"
  | .regenerate => toolWord i.tools.generator

def description (i : Input) : RuleName → String
  | .compileSource => "CC $out"
  | .linkCompiler => "LINK $out"
  | .compileTool => "CC $out"
  | .generateCode => "DYNASM $out"
  | .joinLibrary => "AMALG " ++ i.project.library.name
  | .packHeaders => "COMPINCL $out"
  | .runTest => "TEST $in"
  | .compileDriver => "CC $out"
  | .runDriver => "RUN $in"
  | .regenerate => "GEN build.ninja"

def plainRule (i : Input) (name : RuleName) : Ninja.Rule :=
  { name := name.text, command := i.command name, description := some (i.description name) }

def rules (i : Input) : List Ninja.Rule :=
  let report := i.toolchain.platform.headerReport
  [{ i.plainRule .compileSource with deps := report.deps, depfile := report.depfile },
    i.plainRule .linkCompiler,
    i.plainRule .compileTool,
    i.plainRule .generateCode,
    { i.plainRule .joinLibrary with restat := true },
    { i.plainRule .packHeaders with restat := true },
    i.plainRule .runTest,
    i.plainRule .compileDriver,
    i.plainRule .runDriver,
    { i.plainRule .regenerate with generator := true }]

end Input

end BuildPlan.Graph
