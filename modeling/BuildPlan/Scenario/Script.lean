import BuildPlan.Scenario.Builder
import BuildPlan.Scenario.Words

/-!
# Scenario scripts

A script is read line by line. Blank lines and lines that start with `#` say nothing; any other line
is a directive, which is one or more calls of the builder. A directive that takes a text is
followed by the lines of that text and a closing line, which but for trailing blanks is the tag that
the directive gives. An error names the line of the directive it belongs to.
-/

namespace BuildPlan.Scenario

/-- Why a line is no directive. -/
inductive SyntaxError where
  | words (reason : WordError)
  | argumentCount (command : String) (expected found : Nat)
  | noTag (word : String)
  | unterminatedText (tag : String)
  | noHelper
  | lineNumber (word : String)
  | expectedValue (word : String)
  | unknownCommand (word : String)
  deriving DecidableEq, Repr

namespace SyntaxError

def message : SyntaxError → String
  | words reason => reason.message
  | argumentCount command expected found =>
    command ++ " takes " ++ Nat.repr expected ++ " argument(s), got " ++ Nat.repr found
  | noTag word => "expected <<TAG, got " ++ Text.quoted word
  | unterminatedText tag => "unterminated heredoc, expected " ++ tag
  | noHelper => "host-helper needs at least one name"
  | lineNumber word => "invalid line number " ++ Text.quoted word
  | expectedValue word => "invalid expected value " ++ Text.quoted word
  | unknownCommand word => "unknown command " ++ Text.quoted word

end SyntaxError

/-- Why a script gives no scenario; `line` is that of the directive at fault, or the last line that
was read as one. -/
inductive ScriptError where
  | badSyntax (script : String) (line : Nat) (reason : SyntaxError)
  | step (script : String) (line : Nat) (reason : CallError)
  deriving DecidableEq, Repr

namespace ScriptError

def message : ScriptError → String
  | badSyntax script line reason => script ++ ":" ++ Nat.repr line ++ ": " ++ reason.message
  | step script line reason => script ++ ":" ++ Nat.repr line ++ ": " ++ reason.message

end ScriptError

/-! ## Directives -/

/-- What a directive with a text does with it. -/
inductive TextUse where
  | file (path : String)
  | hostCode
  deriving DecidableEq, Repr

def TextUse.call : TextUse → (text : String) → Call
  | file path, text => .file path text
  | hostCode, text => .hostCode text

/-- What a line asks for. -/
inductive Directive where
  | calls (calls : List Call)
  /-- A text that follows, up to the tag. -/
  | text (tag : List Char) (use : TextUse)
  deriving DecidableEq, Repr

/-- The limit of the line numbers of edits. -/
def lineLimit : Nat := 0x10000000000000000

/-- The tag behind `<<`. -/
def tagOf (word : String) : Except SyntaxError (List Char) :=
  match word.toList with
  | '<' :: '<' :: c :: cs => .ok (c :: cs)
  | _ => .error (.noTag word)

def textDirective (word : String) (use : TextUse) : Except SyntaxError Directive :=
  match tagOf word with
  | .ok tag => .ok (.text tag use)
  | .error e => .error e

/-- The directive of a command on the line `number`. -/
def directive (number : Nat) (command : String) (args : List String) :
    Except SyntaxError Directive :=
  match command with
  | "file" =>
    match args with
    | [path, word] => textDirective word (.file path)
    | _ => .error (.argumentCount command 2 args.length)
  | "host" =>
    match args with
    | [word] => textDirective word .hostCode
    | _ => .error (.argumentCount command 1 args.length)
  | "include" =>
    match args with
    | [path] => .ok (.calls [.includePath path])
    | _ => .error (.argumentCount command 1 args.length)
  | "host-helper" =>
    match args with
    | [] => .error .noHelper
    | _ :: _ => .ok (.calls (args.map .hostHelper))
  | "entry" =>
    match args with
    | [name] => .ok (.calls [.entry name])
    | _ => .error (.argumentCount command 1 args.length)
  | "edit" =>
    match args with
    | [path, word, find, replacement] =>
      match Text.parseNat? lineLimit word.toList with
      | some line => .ok (.calls [.edit path line find replacement])
      | none => .error (.lineNumber word)
    | _ => .error (.argumentCount command 4 args.length)
  | "flush" =>
    match args with
    | [] => .ok (.calls [.flush])
    | _ :: _ => .error (.argumentCount command 0 args.length)
  | "expect" =>
    match args with
    | [word] =>
      match Text.parseInt32? word.toList with
      | some value => .ok (.calls [.expect value number])
      | none => .error (.expectedValue word)
    | _ => .error (.argumentCount command 1 args.length)
  | _ => .error (.unknownCommand command)

/-- The directive on a line; none where the line says nothing. -/
def readDirective (number : Nat) (line : List Char) : Except SyntaxError (Option Directive) :=
  match Text.trim line with
  | [] => .ok none
  | '#' :: _ => .ok none
  | c :: cs =>
    match wordsOf (c :: cs) with
    | .error e => .error (.words e)
    | .ok [] => .ok none
    | .ok (command :: args) =>
      match directive number command args with
      | .ok d => .ok (some d)
      | .error e => .error e

/-! ## Scripts -/

/-- A text under way. -/
structure OpenText where
  tag : List Char
  use : TextUse
  /-- The lines so far, each with its line feed. -/
  body : List Char
  deriving DecidableEq, Repr

/-- Where the reading of a script stands. -/
structure Reading where
  builder : Builder
  /-- The number of the last line that was not part of a text. -/
  line : Nat := 0
  openText : Option OpenText := none
  deriving DecidableEq, Repr

namespace Reading

/-- Makes the calls of the directive on the current line. -/
def make (r : Reading) (calls : List Call) : Except ScriptError Reading :=
  match r.builder.calls calls with
  | .ok b => .ok { r with builder := b, openText := none }
  | .error e => .error (.step r.builder.name r.line e)

/-- Takes in the line with the given number. -/
def step (r : Reading) (number : Nat) (line : List Char) : Except ScriptError Reading :=
  match r.openText with
  | some t =>
    if Text.trimEnd line = t.tag then r.make [t.use.call (String.ofList t.body)]
    else .ok { r with openText := some { t with body := t.body ++ line ++ ['\n'] } }
  | none =>
    match readDirective number line with
    | .error e => .error (.badSyntax r.builder.name number e)
    | .ok none => .ok { r with line := number }
    | .ok (some (.calls calls)) => { r with line := number }.make calls
    | .ok (some (.text tag use)) =>
      .ok { r with line := number, openText := some ⟨tag, use, []⟩ }

/-- Takes in lines of which the first has the given number. -/
def steps (r : Reading) (number : Nat) : List (List Char) → Except ScriptError Reading
  | [] => .ok r
  | line :: rest =>
    match r.step number line with
    | .error e => .error e
    | .ok r => r.steps (number + 1) rest

/-- The scenario at the end of the script. -/
def finish (r : Reading) : Except ScriptError Scenario :=
  match r.openText with
  | some t =>
    .error (.badSyntax r.builder.name r.line (.unterminatedText (String.ofList t.tag)))
  | none =>
    match r.builder.scenario with
    | .ok s => .ok s
    | .error e => .error (.step r.builder.name r.line e)

end Reading

/-- The scenario of a script; `name` is the script's name in what is reported. -/
def parse (name source : String) : Except ScriptError Scenario :=
  match Reading.steps { builder := { name := name } } 1 (Text.lines source.toList) with
  | .ok r => r.finish
  | .error e => .error e

end BuildPlan.Scenario
