import BuildPlan.Shell.Condition
import BuildPlan.Shell.Expansion
import BuildPlan.Shell.Format

/-!
# Built-in commands

The commands that a shell runs by itself and that run no other command, together with the few
programs that scripts rely on. Some of them end the script when they are used wrongly.
-/

namespace BuildPlan.Shell

abbrev Builtin := State → List String → State × Flow

/-- The status of a command that is used wrongly. -/
def misuseStatus : Nat := 2

/-- The status of a command that is not there. -/
def unknownStatus : Nat := 127

/-- The status of a file that is no program. -/
def unusableStatus : Nat := 126

/-- Ends the script, because a command is used wrongly. -/
def misused (s : State) : State × Flow :=
  (s.ended misuseStatus, .leave)

def argumentNumber? (arg : String) : Option Nat :=
  (Text.digits? arg.toList).filter (· < 2147483648)

/-! ## Output -/

def runEcho : Builtin := fun s args =>
  ((s.emit (echoBytes args)).ended 0, .next)

/-- Writes its arguments as a format has it. -/
def runPrintf : Builtin := fun s args =>
  match (if args.head? = some "--" then args.tail else args) with
  | [] => (s.ended misuseStatus, .next)
  | format :: args =>
    let (bytes, fault) := printfBytes format args
    ((s.emit bytes).ended fault.status, .next)

/-- Writes the contents of files, or of the input. -/
def catFiles (s : State) (ok : Bool) : List String → State
  | [] => s.decided ok
  | path :: rest =>
    if path = "-" then catFiles ({ s with input := [] }.emit s.input) ok rest
    else
      match s.readFile? path with
      | some bytes => catFiles (s.emit bytes) ok rest
      | none => catFiles s false rest

/-- Writes the contents of files, or of the input. -/
def runCat : Builtin := fun s args =>
  (catFiles s true (if args.isEmpty then ["-"] else args), .next)

def runLs : Builtin := fun s args =>
  let path := args.headD "."
  match s.tree.lookup path with
  | .error _ => (s.ended misuseStatus, .next)
  | .ok (_, .file _ _) => ((s.emit (Text.toUtf8 (path ++ "\n"))).ended 0, .next)
  | .ok (loc, .directory) =>
    let names := (s.tree.children loc).filter fun n => n.toList.head? != some '.'
    ((s.emit (Text.toUtf8 (Text.unlines names))).ended 0, .next)

def runPwd : Builtin := fun s _ =>
  ((s.emit (Text.toUtf8 (Location.path s.tree.cwd ++ "\n"))).ended 0, .next)

/-! ## Conditions -/

/-- Ends with a truth value, or with an error. -/
def runCondition (s : State) (words : List String) : State × Flow :=
  match condition? s words with
  | some b => (s.decided b, .next)
  | none => (s.ended misuseStatus, .next)

def runTest : Builtin := fun s args => runCondition s args

def runBracket : Builtin := fun s args =>
  if args.getLast? = some "]" then runCondition s args.dropLast else (s.ended misuseStatus, .next)

/-! ## Flow -/

def runExit : Builtin := fun s args =>
  match args with
  | [] => (s, .leave)
  | arg :: _ =>
    match argumentNumber? arg with
    | some n => (s.ended (State.exitCode n), .leave)
    | none => misused s

def runReturn : Builtin := fun s args =>
  match args with
  | [] => (s, .returned)
  | arg :: _ =>
    match argumentNumber? arg with
    | some n => (s.ended n, .returned)
    | none => misused s

/-- Leaves a number of loops, or goes on with the next round; outside of loops nothing happens. -/
def runLoopControl (flow : Nat → Flow) : Builtin := fun s args =>
  match (args.head?.map argumentNumber?).getD (some 1) with
  | some (n + 1) => (s.ended 0, if s.loops = 0 then .next else flow (min (n + 1) s.loops))
  | _ => misused s

/-! ## Variables and arguments -/

/-- Takes a word apart at its equals sign. -/
def assignmentOf (word : String) : String × Option String :=
  match cutAt '=' word.toList with
  | some (name, value) => (String.ofList name, some (String.ofList value))
  | none => (word, none)

/-- Sets variables, and hands them on if asked to. -/
def runDeclare (toPrograms : Bool) : Builtin := fun s args =>
  let declare (s : State) (word : String) : State :=
    let (name, value?) := assignmentOf word
    let s := match value? with
      | some value => s.set name value
      | none => s
    if toPrograms then s.exporting name else s
  ((args.foldl declare s).ended 0, .next)

def runUnset : Builtin := fun s args =>
  ((args.foldl State.unset s).ended 0, .next)

def runShift : Builtin := fun s args =>
  match (args.head?.map argumentNumber?).getD (some 1) with
  | some n =>
    if n ≤ s.args.length then ({ s with args := s.args.drop n }.ended 0, .next) else misused s
  | none => misused s

def runSet : Builtin := fun s args =>
  match args with
  | [] => (s.ended 0, .next)
  | "--" :: args => ({ s with args := args }.ended 0, .next)
  | arg :: rest =>
    match arg.toList with
    | '-' :: flags =>
      let s : State :=
        { s with
          stopsOnFailure := s.stopsOnFailure || flags.contains 'e'
          needsValues := s.needsValues || flags.contains 'u' }
      match rest with
      | [] => (s.ended 0, .next)
      | "--" :: args => ({ s with args := args }.ended 0, .next)
      | args => ({ s with args := args }.ended 0, .next)
    | '+' :: flags =>
      let s : State :=
        { s with
          stopsOnFailure := s.stopsOnFailure && !flags.contains 'e'
          needsValues := s.needsValues && !flags.contains 'u' }
      (s.ended 0, .next)
    | _ => ({ s with args := args }.ended 0, .next)

/-- The words of a line, where the last of them takes all that is left. -/
def readWords : (count : Nat) → List Char → List String
  | 0, _ => []
  | 1, cs => [String.ofList ((cs.dropWhile isSplitter).reverse.dropWhile isSplitter).reverse]
  | count + 1, cs =>
    let cs := cs.dropWhile isSplitter
    String.ofList (cs.takeWhile (!isSplitter ·)) ::
      readWords count (cs.dropWhile (!isSplitter ·))

/-- Reads a line of the input into variables. -/
def runRead : Builtin := fun s args =>
  let names := args.filter (· != "-r")
  let line := s.input.takeWhile (· != 10)
  let behind := s.input.drop line.length
  let words := readWords names.length (Text.ofUtf8Lossy line).toList
  let s := (names.zip words).foldl (fun s (name, word) => s.set name word)
    { s with input := behind.tail }
  (s.decided !behind.isEmpty, .next)

def runCd : Builtin := fun s args =>
  match s.tree.lookup (args.headD "/") with
  | .ok (loc, .directory) => ({ s with tree := { s.tree with cwd := loc } }.ended 0, .next)
  | _ => (s.ended misuseStatus, .next)

/-! ## Signals -/

def signalNumbers : List (String × Nat) :=
  [("EXIT", 0), ("HUP", 1), ("INT", 2), ("QUIT", 3), ("ILL", 4), ("TRAP", 5), ("ABRT", 6),
    ("BUS", 7), ("FPE", 8), ("KILL", 9), ("USR1", 10), ("SEGV", 11), ("USR2", 12), ("PIPE", 13),
    ("ALRM", 14), ("TERM", 15), ("CHLD", 17), ("CONT", 18), ("STOP", 19), ("URG", 23),
    ("XCPU", 24), ("XFSZ", 25), ("WINCH", 28), ("SYS", 31)]

def signal? (word : String) : Option Nat :=
  match argumentNumber? word with
  | some n => some n
  | none => (signalNumbers.find? (·.1 == word.toUpper)).map (·.2)

/-- Whether a process goes on when the signal arrives. -/
def isHarmless (signal : Nat) : Bool :=
  [0, 17, 18, 23, 28].contains signal

/-- Sends a signal; only the script itself can be reached. -/
def sendSignal (s : State) (signal : Nat) (targets : List String) : State × Flow :=
  if targets.isEmpty then (s.ended misuseStatus, .next)
  else if targets.contains (Nat.repr processNumber) then
    match (s.trap? signal).filter fun _ => signal != 9 with
    | some source => ({ s with pending := some source }.ended 0, .next)
    | none => if isHarmless signal then (s.ended 0, .next) else (s, .killed signal)
  else (s.ended 1, .next)

def runKill : Builtin := fun s args =>
  match args with
  | [] => (s.ended misuseStatus, .next)
  | "-s" :: name :: targets =>
    match signal? name with
    | some n => sendSignal s n targets
    | none => (s.ended misuseStatus, .next)
  | arg :: targets =>
    match arg.toList with
    | '-' :: name =>
      match signal? (String.ofList name) with
      | some n => sendSignal s n targets
      | none => (s.ended misuseStatus, .next)
    | _ => sendSignal s 15 args

/-- Sets what is run for signals; a dash or nothing brings back their usual effect. -/
def runTrap : Builtin := fun s args =>
  let setAll (source : Option String) (names : List String) : State :=
    (names.filterMap signal?).foldl (fun s n => s.withTrap n source) s
  match args with
  | [] => (s.ended 0, .next)
  | [name] => ((setAll none [name]).ended 0, .next)
  | "-" :: names => ((setAll none names).ended 0, .next)
  | source :: names => ((setAll (some source) names).ended 0, .next)

/-! ## Looking up -/

/-- Does nothing, and ends with a status. -/
def runNothing (status : Nat) : Builtin := fun s _ => (s.ended status, .next)

def builtin? (name : String) : Option Builtin :=
  match name with
  | ":" => some (runNothing 0)
  | "true" => some (runNothing 0)
  | "false" => some (runNothing 1)
  | "echo" => some runEcho
  | "printf" => some runPrintf
  | "cat" => some runCat
  | "ls" => some runLs
  | "pwd" => some runPwd
  | "test" => some runTest
  | "[" => some runBracket
  | "exit" => some runExit
  | "return" => some runReturn
  | "break" => some (runLoopControl .breakLoop)
  | "continue" => some (runLoopControl .continueLoop)
  | "export" => some (runDeclare true)
  | "readonly" => some (runDeclare false)
  | "local" => some (runDeclare false)
  | "unset" => some runUnset
  | "shift" => some runShift
  | "set" => some runSet
  | "read" => some runRead
  | "cd" => some runCd
  | "kill" => some runKill
  | "sleep" => some (runNothing 0)
  | "wait" => some (runNothing 0)
  | "trap" => some runTrap
  | "umask" => some (runNothing 0)
  | "ulimit" => some (runNothing 0)
  | _ => none

/-- Whether assignments in front of a command outlast it, and misuse of it ends the script. -/
def isSpecialBuiltin (name : String) : Bool :=
  [":", "break", "continue", ".", "eval", "exec", "exit", "export", "readonly", "return", "set",
    "shift", "trap", "unset"].contains name

end BuildPlan.Shell
