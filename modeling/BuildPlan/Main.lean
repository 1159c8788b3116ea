import BuildPlan.Console.Command
import BuildPlan.Files.Listing

/-!
# The program

One program for the three tools, the first argument being the name of one. The files that it may
look at are named on its standard input, one path a line, a directory with a slash at the end; it
runs the command in the tree of these files and writes back what the command has changed. The
programs that tests run are scripts, so they run inside that tree as well.
-/

namespace BuildPlan.Main

/-- The tree seen from a directory, with nothing in it but the shell and the tools beside the
program. -/
def emptyTree (cwd : String) (tools : ToolPaths) : FileTree :=
  let t := ({} : FileTree).putDirectory cwd
  let programs := [Location.path Shell.shellLocation, tools.generator, tools.packer, tools.runner]
  let t := programs.foldl (fun t path => t.putFile path [] true) t
  { t with cwd := t.locate cwd }

/-- Whether a path names a directory by its form. -/
def namesDirectory (path : String) : Bool :=
  path.toList.getLast? = some '/'

def readItem (t : FileTree) (path : String) : IO FileTree := do
  if namesDirectory path then return t.putDirectory path
  let data ← IO.FS.readBinFile path
  return t.putFile path data.toList true

def pathsOf (text : String) : List String :=
  ((Text.lines text.toList).map String.ofList).filter (!·.isEmpty)

def writeItem (loc : Location) : Item → IO Unit
  | .directory => IO.FS.createDirAll (Location.path loc)
  | .file data _ => do
    IO.FS.createDirAll (Location.path loc.dropLast)
    IO.FS.writeBinFile (Location.path loc) ⟨data.toArray⟩

/-- Writes back the items that a command has changed. -/
def writeChanges (before after : FileTree) : IO Unit := do
  for (loc, item) in after.items do
    if before.at? loc != some item then writeItem loc item

def runTool (t : FileTree) (toolDir tool : String) (args : List String) :
    FileTree × Console.Finish :=
  match tool with
  | "kiln-gen" => Console.generator t toolDir args
  | "kiln-pack" => Console.packer t args
  | "kiln-testrun" => Console.runner t args
  | _ => (t, Console.failed "usage: kiln-gen|kiln-pack|kiln-testrun ...")

/-- Runs the tool that the first argument names. -/
def run (args : List String) : IO UInt32 := do
  let cwd := toString (← IO.currentDir)
  let toolDir := (Path.parent? (toString (← IO.appPath))).getD cwd
  let named ← (← IO.getStdin).readToEnd
  let before ← (pathsOf named).foldlM readItem (emptyTree cwd (ToolPaths.inDirectory toolDir))
  let (after, finish) := runTool before toolDir (args.headD "") args.tail
  writeChanges before after
  (← IO.getStdout).write ⟨finish.stdout.toArray⟩
  IO.eprint finish.stderr
  return finish.status.toUInt32

end BuildPlan.Main

/-- Runs the tool that the first argument names. -/
def main (args : List String) : IO UInt32 :=
  BuildPlan.Main.run args
