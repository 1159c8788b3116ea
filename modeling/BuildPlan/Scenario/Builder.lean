import BuildPlan.Scenario.Basic
import BuildPlan.Text.Line
import BuildPlan.Text.Quoted
import BuildPlan.Text.Search

/-!
# Building scenarios

A builder takes the calls of a script one by one. Files come first. An edit changes the current text
of a file and marks it; a flush turns every marked file into one update, in the order of
declaration, so edits that no flush follows are lost.
-/

namespace BuildPlan.Scenario

/-- Why a call is refused, or no scenario comes of the calls. -/
inductive CallError where
  | lateFile (path : String)
  | fileTwice (path : String)
  | undeclaredFile (path : String)
  | noSuchLine (path : String) (line lines : Nat)
  | noSuchText (path : String) (line : Nat) (find : String)
  | withoutFiles
  deriving DecidableEq, Repr

namespace CallError

def message : CallError → String
  | lateFile path => "file " ++ path ++ " declared after the first step"
  | fileTwice path => "file " ++ path ++ " declared twice"
  | undeclaredFile path => "edit of unknown file " ++ path
  | noSuchLine path line lines =>
    path ++ " has " ++ Nat.repr lines ++ " lines, cannot edit line " ++ Nat.repr line
  | noSuchText path line find =>
    path ++ ":" ++ Nat.repr line ++ " does not contain " ++ Text.quoted find
  | withoutFiles => "scenario declares no files"

end CallError

/-- A file as the builder sees it. -/
structure OpenFile where
  path : String
  /-- As declared. -/
  initial : String
  /-- After the edits so far. -/
  current : String
  /-- Edited since the last flush. -/
  dirty : Bool
  deriving DecidableEq, Repr

/-- The calls so far, folded. -/
structure Builder where
  name : String
  files : List OpenFile := []
  includePaths : List String := []
  hostHelpers : List String := []
  hostCode : List String := []
  entry : Option String := none
  steps : List Step := []
  /-- Whether an edit, a flush or an expectation has been made. -/
  started : Bool := false
  deriving DecidableEq, Repr

/-- One call. -/
inductive Call where
  | file (path contents : String)
  | includePath (path : String)
  | hostHelper (name : String)
  | hostCode (code : String)
  | entry (name : String)
  /-- Replaces every occurrence of `find` in a line, counted from one. -/
  | edit (path : String) (line : Nat) (find replacement : String)
  | flush
  /-- Expects a result; `line` is that of the script. -/
  | expect (value : Int32) (line : Nat)
  deriving DecidableEq, Repr

/-! ## Edits -/

/-- A piece of a text with every occurrence of `find` before its line feed replaced; none where
there is no occurrence. -/
def editPiece? (find sub piece : List Char) : Option (List Char) :=
  match Text.stripEnd? '\n' piece with
  | some text =>
    if Text.occursIn find text then some (Text.replace find sub text ++ ['\n']) else none
  | none => if Text.occursIn find piece then some (Text.replace find sub piece) else none

/-- The file after an edit of the line `line`. -/
def OpenFile.replaceOnLine (f : OpenFile) (line : Nat) (find replacement : String) :
    Except CallError OpenFile :=
  let pieces := Text.pieces f.current.toList
  if line = 0 then .error (.noSuchLine f.path line pieces.length)
  else
    match pieces[line - 1]? with
    | none => .error (.noSuchLine f.path line pieces.length)
    | some piece =>
      match editPiece? find.toList replacement.toList piece with
      | none => .error (.noSuchText f.path line find)
      | some edited =>
        .ok { f with
          current := String.ofList (pieces.set (line - 1) edited).flatten
          dirty := true }

/-- The files after an edit of the first one with the given path. -/
def editFile (path : String) (line : Nat) (find replacement : String) :
    List OpenFile → Except CallError (List OpenFile)
  | [] => .error (.undeclaredFile path)
  | f :: rest =>
    if f.path = path then
      match f.replaceOnLine line find replacement with
      | .error e => .error e
      | .ok f => .ok (f :: rest)
    else
      match editFile path line find replacement rest with
      | .error e => .error e
      | .ok rest => .ok (f :: rest)

/-! ## Calls -/

def updates (files : List OpenFile) : List Step :=
  (files.filter OpenFile.dirty).map fun f => .update f.path f.current

namespace Builder

def call (b : Builder) : Call → Except CallError Builder
  | .file path contents =>
    if b.started then .error (.lateFile path)
    else if b.files.any (·.path == path) then .error (.fileTwice path)
    else .ok { b with files := b.files ++ [⟨path, contents, contents, false⟩] }
  | .includePath path => .ok { b with includePaths := b.includePaths ++ [path] }
  | .hostHelper name => .ok { b with hostHelpers := b.hostHelpers ++ [name] }
  | .hostCode code => .ok { b with hostCode := b.hostCode ++ [code] }
  | .entry name => .ok { b with entry := some name }
  | .edit path line find replacement =>
    match editFile path line find replacement b.files with
    | .error e => .error e
    | .ok files => .ok { b with files := files, started := true }
  | .flush =>
    .ok { b with
      files := b.files.map fun f => { f with dirty := false }
      steps := b.steps ++ updates b.files
      started := true }
  | .expect value line =>
    .ok { b with steps := b.steps ++ [.expect value ⟨b.name, line⟩], started := true }

/-- The builder after several calls, up to the first that is refused. -/
def calls (b : Builder) : List Call → Except CallError Builder
  | [] => .ok b
  | c :: rest =>
    match b.call c with
    | .error e => .error e
    | .ok b => b.calls rest

def scenario (b : Builder) : Except CallError Scenario :=
  if b.files.isEmpty then .error .withoutFiles
  else .ok {
    name := b.name
    files := b.files.map fun f => ⟨f.path, f.initial⟩
    includePaths := b.includePaths
    hostHelpers := b.hostHelpers
    hostCode := b.hostCode
    entry := b.entry.getD usualEntry
    steps := b.steps }

end Builder

end BuildPlan.Scenario
