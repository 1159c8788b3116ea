import BuildPlan.Files.Listing
import BuildPlan.Shell.Syntax

/-!
# Shell states

All that a running script can change: files, variables, functions, arguments, its last status, and
where its input comes from and its output goes to.
-/

namespace BuildPlan.Shell

/-- Where output goes. -/
inductive Sink where
  | output
  | errors
  | file (loc : Location)
  | closed
  deriving DecidableEq, Repr

/-- What a shell can change. -/
structure State where
  tree : FileTree
  vars : List (String × String) := []
  /-- The variables that other programs are given. -/
  exported : List String := []
  functions : List (String × Command) := []
  /-- The name of the script. -/
  name : String := "sh"
  args : List String := []
  status : Nat := 0
  /-- Whether a command that fails ends the script. -/
  stopsOnFailure : Bool := false
  /-- Whether a parameter without a value ends the script. -/
  needsValues : Bool := false
  /-- How many loops are under way. -/
  loops : Nat := 0
  /-- What is run when a signal arrives, or for zero when the script ends. -/
  traps : List (Nat × String) := []
  /-- What is to be run for a signal that has arrived. -/
  pending : Option String := none
  /-- What is left of the input. -/
  input : Bytes := []
  /-- What was written, the latest first. -/
  written : List Bytes := []
  /-- Where output goes, by descriptor. -/
  sinks : List (Nat × Sink) := [(1, .output), (2, .errors)]

/-- How a command ends. -/
inductive Flow where
  | next
  /-- The script ends. -/
  | leave
  | killed (signal : Nat)
  | breakLoop (levels : Nat)
  | continueLoop (levels : Nat)
  | returned
  deriving DecidableEq, Repr

namespace State

def valueOf? (s : State) (name : String) : Option String :=
  (s.vars.find? (·.1 == name)).map (·.2)

def set (s : State) (name value : String) : State :=
  { s with vars := s.vars.filter (·.1 != name) ++ [(name, value)] }

def unset (s : State) (name : String) : State :=
  { s with vars := s.vars.filter (·.1 != name) }

def trap? (s : State) (signal : Nat) : Option String :=
  (s.traps.find? (·.1 == signal)).map (·.2)

/-- Sets what is run for a signal, or with none leaves it to its usual effect. -/
def withTrap (s : State) (signal : Nat) (source : Option String) : State :=
  { s with traps := (source.map (signal, ·)).toList ++ s.traps.filter (·.1 != signal) }

/-- Hands a variable on to other programs. -/
def exporting (s : State) (name : String) : State :=
  if s.exported.contains name then s else { s with exported := s.exported ++ [name] }

/-- The variables that other programs are given. -/
def environment (s : State) : List (String × String) :=
  s.vars.filter fun v => s.exported.contains v.1

def define (s : State) (name : String) (body : Command) : State :=
  { s with functions := s.functions.filter (·.1 != name) ++ [(name, body)] }

/-- What gets out of a process that ends with a status: one byte of it. -/
def exitCode (status : Nat) : Nat := status % 256

def ended (s : State) (status : Nat) : State :=
  { s with status }

def decided (s : State) (b : Bool) : State :=
  s.ended (if b then 0 else 1)

/-- Where the output of a descriptor goes. -/
def sink? (s : State) (descriptor : Nat) : Option Sink :=
  (s.sinks.find? (·.1 == descriptor)).map (·.2)

/-- Sends the output of a descriptor somewhere. -/
def withSink (s : State) (descriptor : Nat) (sink : Sink) : State :=
  { s with sinks := (descriptor, sink) :: s.sinks.filter (·.1 != descriptor) }

def emit (s : State) (bytes : Bytes) : State :=
  match (s.sink? 1).getD .closed with
  | .output => { s with written := bytes :: s.written }
  | .errors => s
  | .closed => s
  | .file loc =>
    match s.tree.at? loc with
    | some (.file old executable) =>
      { s with tree := s.tree.put loc (.file (old ++ bytes) executable) }
    | _ => s

def output (s : State) : Bytes :=
  s.written.reverse.flatten

/-- Puts an empty file at a path, or with `append` the file that stands there. -/
def openSink? (s : State) (path : String) (append : Bool) : Option (State × Sink) :=
  if path = "/dev/null" then some (s, .errors)
  else
    match s.tree.place path with
    | .error _ => none
    | .ok (_, none) => none
    | .ok (dir, some part) =>
      let loc := dir ++ [String.ofList part]
      match s.tree.at? loc with
      | some .directory => none
      | some (.file data executable) =>
        some ({ s with tree := s.tree.put loc (.file (if append then data else []) executable) },
          .file loc)
      | none => some ({ s with tree := s.tree.put loc (.file [] false) }, .file loc)

/-- The contents of a file that a script reads. -/
def readFile? (s : State) (path : String) : Option Bytes :=
  if path = "/dev/null" then some [] else (s.tree.read path).toOption

end State

end BuildPlan.Shell
