import BuildPlan.Shell.Builtin
import BuildPlan.Shell.Reader

/-!
# Running scripts

What a command does to the state of its shell, and how it ends. Commands run one after the other,
those of a pipeline too; a command in a shell of its own can change files but neither variables nor
the working directory of the shell around it. Commands nest, and loops turn, up to a limit: a script
that passes it is stopped as if by a signal.
-/

namespace BuildPlan.Shell

/-- How commands are run that another one is made of; `tested` tells that its failure is asked
for. -/
abbrev Runner := (tested : Bool) → State → Command → State × Flow

def depthLimit : Nat := 1000

def roundLimit : Nat := 100000

/-- The signal that stops a script which passes a limit. -/
def stopSignal : Nat := 9

/-! ## Shells of their own -/

/-- The state after a shell of its own has run: files, input and status are kept. -/
def afterShell (outer inner : State) : State :=
  { outer with
    tree := { inner.tree with cwd := outer.tree.cwd }
    input := inner.input
    status := State.exitCode inner.status }

/-- The state and flow after a shell of its own has run. -/
def leaveShell (outer : State) (r : State × Flow) : State × Flow :=
  match r with
  | (inner, .killed n) => (afterShell outer inner, .killed n)
  | (inner, _) => (afterShell outer inner, .next)

def captured (outer : State) (body : State → State × Flow) : (State × Flow) × Bytes :=
  let (inner, flow) := body ({ outer with written := [] }.withSink 1 .output)
  (leaveShell outer (inner, flow), inner.output)

/-! ## Scripts -/

/-- Runs the lines of a script; `fuel` bounds their number. -/
def runLines (run : Runner) : (fuel : Nat) → State → List Token → State × Flow
  | 0, s, _ => (s, .killed stopSignal)
  | fuel + 1, s, ts =>
    match skipLines ts with
    | [] => (s, .next)
    | t :: rest =>
      match line? (t :: rest) with
      | none => misused s
      | some (c, rest) =>
        match run false s c with
        | (s, .next) => runLines run fuel s rest
        | r => r

def runSource (run : Runner) (s : State) (source : List Char) : State × Flow :=
  let ts := tokens source
  runLines run (ts.length + 1) s ts

/-- A text without the line feeds at its end. -/
def trimLineFeeds (s : String) : String :=
  String.ofList (s.toList.reverse.dropWhile (· = '\n')).reverse

/-- Runs commands for the text that they write. -/
def substitute (run : Runner) : Substitute := fun s source =>
  let (r, bytes) := captured s fun inner => runSource run { inner with status := 0 } source
  (r.1, trimLineFeeds (Text.ofUtf8Lossy bytes))

/-! ## Redirections -/

/-- The state with a descriptor that goes where another one goes. -/
def duplicate? (s : State) (descriptor : Nat) (target : String) : Option State :=
  if descriptor = 0 then some s
  else if target = "-" then some (s.withSink descriptor .closed)
  else (argumentNumber? target).bind fun n => (s.sink? n).map (s.withSink descriptor)

/-- The state with an output descriptor that goes to a file. -/
def redirectOutput? (s : State) (descriptor : Nat) (path : String) (append : Bool) :
    Option State :=
  (s.openSink? path append).map fun (s, sink) => s.withSink descriptor sink

/-- Follows redirections, up to the first that fails. -/
def redirect (run : Runner) (s : State) : List Redirection → State × Bool
  | [] => (s, true)
  | r :: rest =>
    match expandText (substitute run) s r.target with
    | (s, none) => (s, false)
    | (s, some target) =>
      let next? : Option State := match r.action with
        | .input => (s.readFile? target).map fun bytes => { s with input := bytes }
        | .output => redirectOutput? s r.descriptor target false
        | .append => redirectOutput? s r.descriptor target true
        | .duplicate => duplicate? s r.descriptor target
        | .here => some { s with input := Text.toUtf8 target }
      match next? with
      | some s => redirect run s rest
      | none => (s, false)

/-- Whether a redirection is one of the input. -/
def isInput (r : Redirection) : Bool :=
  r.action = .input || r.action = .here

/-- The state with its descriptors as they were before redirections. -/
def restored (before after : State) (rs : List Redirection) : State :=
  let after := { after with sinks := before.sinks }
  if rs.any isInput then { after with input := before.input } else after

def withRedirect (run : Runner) (s : State) (rs : List Redirection)
    (body : State → State × Flow) : State × Flow :=
  match redirect run s rs with
  | (after, false) => ((restored s after rs).ended misuseStatus, .next)
  | (after, true) =>
    let (after, flow) := body after
    (restored s after rs, flow)

/-! ## Programs -/

/-- A script with all that it is started with. -/
structure Script where
  name : String
  args : List String
  source : List Char
  stopsOnFailure : Bool := false

/-- The text of a file, with anything that is no text replaced. -/
def sourceOf (bytes : Bytes) : List Char :=
  (Text.ofUtf8Lossy bytes).toList

/-- The script that a shell runs when it is given arguments; none where it cannot be read. -/
def shellScript? (s : State) : List String → Option Script
  | "-e" :: args => (shellScript? s args).map fun script => { script with stopsOnFailure := true }
  | "-c" :: source :: args => some ⟨args.headD "sh", args.tail, source.toList, false⟩
  | path :: args => (s.readFile? path).map fun bytes => ⟨path, args, sourceOf bytes, false⟩
  | [] => some ⟨"sh", [], sourceOf s.input, false⟩

/-- The state in which a program starts. -/
def freshState (tree : FileTree) (environment : List (String × String)) (input : Bytes) : State :=
  { tree, vars := environment, exported := environment.map (·.1), input }

/-- Runs what is to be run when a script ends; unless it leaves with a status of its own, that of
the script stays. -/
def runExitTrap (run : Runner) : State × Flow → State × Flow
  | (s, .killed n) => (s, .killed n)
  | (s, flow) =>
    match s.trap? 0 with
    | none => (s, flow)
    | some source =>
      match runSource run (s.withTrap 0 none) source.toList with
      | (after, .next) => (after.ended s.status, .next)
      | r => r

/-- Runs a script in a state that is fresh but for its name and arguments. -/
def runFresh (run : Runner) (s : State) (script : Script) : State × Flow :=
  runExitTrap run (runSource run
    { s with
      name := script.name
      args := script.args
      stopsOnFailure := script.stopsOnFailure }
    script.source)

/-- The status that a shell gives a program. -/
def programStatus (r : State × Flow) : Nat :=
  match r with
  | (_, .killed n) => 128 + n
  | (s, _) => State.exitCode s.status

/-- Runs a script as a program of its own. -/
def runProgram (run : Runner) (s : State) (script : Script) : State × Flow :=
  let fresh := { freshState s.tree s.environment s.input with sinks := s.sinks }
  let (inner, flow) := runFresh run fresh script
  let s := { s with written := inner.written ++ s.written }
  ((afterShell s inner).ended (programStatus (inner, flow)), .next)

def runShell (run : Runner) (s : State) (args : List String) : State × Flow :=
  match shellScript? s args with
  | some script => runProgram run s script
  | none => (s.ended misuseStatus, .next)

def shellLocation : Location := ["bin", "sh"]

def runFile (run : Runner) (s : State) (path : String) (args : List String) : State × Flow :=
  match s.tree.lookup path with
  | .error _ => (s.ended unknownStatus, .next)
  | .ok (_, .directory) => (s.ended unusableStatus, .next)
  | .ok (loc, .file data executable) =>
    if !executable then (s.ended unusableStatus, .next)
    else if loc = shellLocation then runShell run s args
    else runProgram run s ⟨path, args, sourceOf data, false⟩

def runNamed (run : Runner) (s : State) (name : String) (args : List String) : State × Flow :=
  if name.toList.contains '/' then runFile run s name args
  else if name = "sh" then runShell run s args
  else (s.ended unknownStatus, .next)

/-! ## Simple commands -/

/-- The flow behind a function. -/
def afterFunction (outer : State) : State × Flow → State × Flow
  | (s, .returned) => ({ s with args := outer.args }, .next)
  | (s, flow) => ({ s with args := outer.args }, flow)

/-- Runs what is to be run for a signal that has arrived. -/
def runPending (run : Runner) : State × Flow → State × Flow
  | (s, .next) =>
    match s.pending with
    | none => (s, .next)
    | some source =>
      match runSource run { s with pending := none } source.toList with
      | (after, .next) => (after.ended s.status, .next)
      | r => r
  | r => r

/-- Runs a command by its name and arguments; `rest` bounds how often a command only names
another. -/
def invoke (run : Runner) (tested : Bool) :
    (rest : Nat) → State → String → List String → State × Flow
  | 0, s, _, _ => (s, .killed stopSignal)
  | rest + 1, s, name, args =>
    match s.functions.find? (·.1 == name) with
    | some (_, body) => afterFunction s (run tested { s with args := args } body)
    | none =>
      match builtin? name with
      | some body => runPending run (body s args)
      | none =>
        match name, args with
        | "eval", args => runSource run (s.ended 0) (" ".intercalate args).toList
        | ".", path :: _ =>
          match s.readFile? path with
          | some bytes => runSource run s (sourceOf bytes)
          | none => misused s
        | "exec", [] => (s.ended 0, .next)
        | "exec", name :: args =>
          match invoke run tested rest s name args with
          | (s, .next) => (s, .leave)
          | r => r
        | "command", name :: args => invoke run tested rest s name args
        | _, _ => runNamed run s name args

/-- Assigns to variables, up to the first assignment that fails. -/
def assign (run : Runner) (toPrograms : Bool) (s : State) :
    List (String × Word) → State × Bool
  | [] => (s, true)
  | (name, w) :: rest =>
    match expandText (substitute run) s w with
    | (s, none) => (s, false)
    | (s, some value) =>
      let s := s.set name value
      assign run toPrograms (if toPrograms then s.exporting name else s) rest

/-- The state with some variables as they were before. -/
def withVariablesOf (before after : State) (names : List String) : State :=
  { after with
    vars := after.vars.filter (fun v => !names.contains v.1) ++
      before.vars.filter (fun v => names.contains v.1)
    exported := before.exported }

def runsCommands (w : Word) : Bool :=
  w.any fun
    | .output _ _ => true
    | _ => false

def runAssignments (run : Runner) (s : State) (as : List (String × Word))
    (rs : List Redirection) : State × Flow :=
  let s := if as.any (fun a => runsCommands a.2) then s else s.ended 0
  withRedirect run s rs fun s =>
    match assign run false s as with
    | (s, true) => (s, .next)
    | (s, false) => misused s

def runCommand (run : Runner) (tested : Bool) (s : State) (as : List (String × Word))
    (rs : List Redirection) (name : String) (args : List String) : State × Flow :=
  if name = "exec" && args.isEmpty then
    match redirect run s rs with
    | (s, true) => (s.ended 0, .next)
    | (s, false) => misused s
  else if isSpecialBuiltin name then
    match redirect run s rs with
    | (after, false) => misused (restored s after rs)
    | (after, true) =>
      match assign run false after as with
      | (after, false) => misused (restored s after rs)
      | (after, true) =>
        let (after, flow) := invoke run tested depthLimit after name args
        (restored s after rs, flow)
  else
    withRedirect run s rs fun s =>
      match assign run true s as with
      | (s, false) => misused s
      | (after, true) =>
        let (after, flow) := invoke run tested depthLimit after name args
        (if as.isEmpty then after else withVariablesOf s after (as.map Prod.fst), flow)

def runSimple (run : Runner) (tested : Bool) (s : State) (as : List (String × Word))
    (ws : List Word) (rs : List Redirection) : State × Flow :=
  match expandWords (substitute run) s ws with
  | (s, none) => misused s
  | (s, some []) => runAssignments run s as rs
  | (s, some (name :: args)) => runCommand run tested s as rs name args

/-! ## Loops -/

/-- The flow behind a round of a loop: whether the loop goes on, and how it ends otherwise. -/
def afterRound : Flow → Option Flow
  | .next => none
  | .continueLoop n => if n ≤ 1 then none else some (.continueLoop (n - 1))
  | .breakLoop n => if n ≤ 1 then some .next else some (.breakLoop (n - 1))
  | flow => some flow

/-- Runs a loop as one more that is under way. -/
def insideLoop (s : State) (body : State → State × Flow) : State × Flow :=
  let (after, flow) := body { s with loops := s.loops + 1, status := 0 }
  ({ after with loops := s.loops }, flow)

/-- Turns a loop; `rounds` bounds how often. -/
def runLoop (run : Runner) (tested untilTrue : Bool) (test body : Command) :
    (rounds : Nat) → State → State × Flow
  | 0, s => (s, .killed stopSignal)
  | rounds + 1, s =>
    match run true s test with
    | (after, .next) =>
      if (after.status == 0) == untilTrue then (after.ended s.status, .next)
      else
        match run tested (after.ended 0) body with
        | (s, flow) =>
          match afterRound flow with
          | none => runLoop run tested untilTrue test body rounds s
          | some flow => (s, flow)
    | (after, flow) =>
      match afterRound flow with
      | none => runLoop run tested untilTrue test body rounds after
      | some flow => (after, flow)

/-- Runs a body for each of several values. -/
def runEach (run : Runner) (tested : Bool) (name : String) (body : Command) (s : State) :
    List String → State × Flow
  | [] => (s, .next)
  | value :: rest =>
    match run tested (s.set name value) body with
    | (s, flow) =>
      match afterRound flow with
      | none => runEach run tested name body s rest
      | some flow => (s, flow)

/-! ## Choices -/

/-- Whether a text fits one of several patterns. -/
def fitsAny (run : Runner) (s : State) (text : List Char) : List Word → Bool
  | [] => false
  | w :: ws =>
    match expandField (substitute run) s w with
    | (s, none) => fitsAny run s text ws
    | (s, some f) => fits (patternOf f) text || fitsAny run s text ws

def runChoice (run : Runner) (tested : Bool) (s : State) (text : List Char) :
    List (List Word × Command) → State × Flow
  | [] => (s.ended 0, .next)
  | (patterns, body) :: rest =>
    if fitsAny run s text patterns then run tested (s.ended 0) body
    else runChoice run tested s text rest

/-! ## Commands -/

/-- Ends the script if a command fails whose failure nobody asks for. -/
def stopOnFailure (tested : Bool) : State × Flow → State × Flow
  | (s, .next) =>
    if s.stopsOnFailure && !tested && s.status != 0 then (s, .leave) else (s, .next)
  | r => r

/-- Runs a command; `fuel` bounds how deep commands nest. -/
def run : (fuel : Nat) → Runner
  | 0, _, s, _ => (s, .killed stopSignal)
  | fuel + 1, tested, s, c =>
    match c with
    | .skip => (s, .next)
    | .simple as ws rs => stopOnFailure tested (runSimple (run fuel) tested s as ws rs)
    | .redirected body rs => withRedirect (run fuel) s rs fun s => run fuel tested s body
    | .inOrder a b =>
      match run fuel tested s a with
      | (s, .next) => run fuel tested s b
      | r => r
    | .both a b =>
      match run fuel true s a with
      | (s, .next) => if s.status = 0 then run fuel tested s b else (s, .next)
      | r => r
    | .either a b =>
      match run fuel true s a with
      | (s, .next) => if s.status = 0 then (s, .next) else run fuel tested s b
      | r => r
    | .negated a =>
      match run fuel true s a with
      | (s, .next) => (s.decided (s.status != 0), .next)
      | r => r
    | .piped a b =>
      match captured s fun s => run fuel true s a with
      | ((s, .killed n), _) => (s, .killed n)
      | ((s, _), bytes) =>
        let (inner, flow) := run fuel tested { s with input := bytes } b
        let outer := { s with written := inner.written }
        let (after, flow) := leaveShell outer (inner, flow)
        stopOnFailure tested ({ after with input := s.input }, flow)
    | .conditional test yes no =>
      match run fuel true s test with
      | (s, .next) => if s.status = 0 then run fuel tested s yes else run fuel tested (s.ended 0) no
      | r => r
    | .loop untilTrue test body =>
      insideLoop s (runLoop (run fuel) tested untilTrue test body roundLimit)
    | .each name words body =>
      match words with
      | none => insideLoop s fun s => runEach (run fuel) tested name body s s.args
      | some ws =>
        match expandWords (substitute (run fuel)) s ws with
        | (s, none) => misused s
        | (s, some values) => insideLoop s fun s => runEach (run fuel) tested name body s values
    | .choice w arms =>
      match expandText (substitute (run fuel)) s w with
      | (s, none) => misused s
      | (s, some text) => runChoice (run fuel) tested s text.toList arms
    | .apart body =>
      let (inner, flow) := run fuel tested s body
      stopOnFailure tested (leaveShell { s with written := inner.written } (inner, flow))
    | .define name body =>
      ((s.define name body).ended 0, .next)

def runScript (s : State) (script : Script) : State × Flow :=
  runFresh (run depthLimit) s script

end BuildPlan.Shell
