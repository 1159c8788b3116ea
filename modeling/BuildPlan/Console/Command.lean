import BuildPlan.Console.Arguments
import BuildPlan.Console.Style
import BuildPlan.Generation.Plan
import BuildPlan.Pack.Step
import BuildPlan.Record.Token
import BuildPlan.TestRun.Difference
import BuildPlan.TestRun.Process

/-!
# The three commands

What the tools do when they are called in a file tree, with what they write and the status that they
end with. A generator or packer that fails writes nothing to its standard output; a runner that
cannot run its test says so there, with a status that no difference of output has.
-/

namespace BuildPlan.Console

/-- How a command ends. -/
structure Finish where
  stdout : Bytes := []
  stderr : String := ""
  status : Nat := 0
  deriving DecidableEq, Repr

def failed (message : String) : Finish :=
  { stderr := message ++ "\n", status := 1 }

/-! ## Generator -/

/-- A path as it is shown: relative to the project where it is inside. -/
def shownPath (root path : String) : String :=
  (Path.stripBase? path root).getD path

/-- What the generator writes about the files of a report. -/
def reportLines (root : String) (r : GenerationReport) : List String :=
  r.written.map (fun path => greenBold "wrote" ++ " " ++ shownPath root path) ++
    r.unchanged.map (fun path => dimmed "unchanged" ++ " " ++ shownPath root path)

/-- Generates the build files of the project around the working directory. -/
def generator (t : FileTree) (toolDir : String) (args : List String) : FileTree × Finish :=
  if !args.isEmpty then (t, failed "usage: kiln-gen")
  else
    let cwd := Location.path t.cwd
    match Project.locate t cwd with
    | .error e => (t, failed e.message)
    | .ok manifest =>
      let root := (Path.parent? manifest).getD cwd
      match Generation.run Project.parse? t root (ToolPaths.inDirectory toolDir) Platform.host with
      | (t, .error e) => (t, failed ("generating " ++ root ++ ": " ++ e.message))
      | (t, .ok report) =>
        (t, { stdout := Text.toUtf8 (Text.unlines (reportLines root report)) })

/-! ## Packer -/

/-- A packing step. -/
inductive PackingStep where
  | headers (root out : String) (headers : List String)
  | library (order : Pack.LibraryOrder)
  deriving DecidableEq, Repr

/-- The options of the step that makes the library. -/
def libraryOptions : List String :=
  ["dir", "name", "header", "license", "switch", "win", "sysv"]

/-- The library that arguments ask for; every option and at least one input is needed. -/
def libraryOrder? (a : Arguments) : Option Pack.LibraryOrder := do
  let dir ← a.option? "dir"
  let name ← a.option? "name"
  let header ← a.option? "header"
  let license ← a.option? "license"
  let switch ← a.option? "switch"
  let win ← a.option? "win"
  let sysv ← a.option? "sysv"
  if a.words.isEmpty then none
  else some { dir, name, header, license, switch, win, sysv, inputs := a.words }

/-- The packing step that arguments ask for. -/
def packingStep? : List String → Option PackingStep
  | "compincl" :: args =>
    match Arguments.parse? [] args with
    | some ⟨_, root :: out :: headers⟩ => some (.headers root out headers)
    | _ => none
  | "amalg" :: args =>
    ((Arguments.parse? libraryOptions args).bind libraryOrder?).map .library
  | _ => none

def packFinish {α : Type} : FileTree × Except PackingError α → FileTree × Finish
  | (t, .ok _) => (t, {})
  | (t, .error e) => (t, failed e.message)

def packer (t : FileTree) (args : List String) : FileTree × Finish :=
  match packingStep? args with
  | none => (t, failed "usage: kiln-pack compincl|amalg ...")
  | some (.headers root out headers) => packFinish (Pack.writeHeaders t root out headers)
  | some (.library order) => packFinish (Pack.writeLibrary t order)

/-! ## Runner -/

/-- What the runner writes about a verdict. -/
def verdictText (record : TestRecord) : Verdict → String
  | .pass => ""
  | .otherOutput expected actual =>
    redBold "output mismatch:" ++ " " ++ record.arguments ++ "\n" ++
      TestRun.difference expected actual
  | .otherStatus expected actual =>
    redBold "FAILED:" ++ " got return code " ++ Text.showInt actual.toInt ++ ", but expected " ++
      Text.showInt expected.toInt ++ "\n"
  | .crash (some status) =>
    redBold "CRASHED:" ++ " exited with " ++ Text.showInt status.toInt ++ " (" ++
      record.status.text ++ ")\n"
  | .crash none => redBold "CRASHED:" ++ " killed by a signal\n"

/-- The end of a runner that cannot run its test. -/
def notRun (message : String) : Finish :=
  { stdout := Text.toUtf8 (redBold "ERROR:" ++ " " ++ message ++ "\n")
    status := TestRun.errorStatus }

/-- The end of a runner that has run its test. The program writes to the same output, unless its
output is compared. -/
def runFinish (record : TestRecord) (outcome : Outcome) : Finish :=
  let verdict := TestRun.verdict record outcome
  { stdout := (if record.comparesOutput then [] else outcome.stdout) ++
      Text.toUtf8 (verdictText record verdict)
    status := verdict.reportStatus }

/-- Runs the test of a token in a directory. -/
def runnerIn (t : FileTree) (root program token : String) : FileTree × Finish :=
  match t.lookup root with
  | .error e => (t, notRun ("project root " ++ root ++ " does not exist: " ++ e.message))
  | .ok (loc, _) =>
    let root := Location.path loc
    match TestRecord.ofToken token with
    | .error e => (t, notRun ("invalid test metadata: " ++ e.message))
    | .ok record =>
      match TestRun.execute Launch.start t root (Path.join root program) record with
      | (t, .error e) => (t, notRun e.message)
      | (t, .ok outcome) => (t, runFinish record outcome)

def runner (t : FileTree) (args : List String) : FileTree × Finish :=
  match Arguments.parse? [] args with
  | some ⟨_, [root, program, token]⟩ => runnerIn t root program token
  | _ => (t, notRun "usage: kiln-testrun <project-root> <executable> <token>")

end BuildPlan.Console
