import BuildPlan.Text.Blank
import BuildPlan.Text.Numeral

/-!
# Test records

A record says how one test is run and what is expected of it: the argument line, the exit status
and the text on standard output. It travels through a build manifest as a token.
-/

namespace BuildPlan

/-- The exit status that a test has to end with. -/
inductive RequiredStatus where
  /-- Exactly this status. -/
  | exit (code : Int32)
  /-- Any status that is not a crash. -/
  | noCrash
  deriving DecidableEq, Repr

namespace RequiredStatus

/-- The word for any status that is not a crash. -/
def noCrashWord : String := "NOCRASH"

/-- Reads a status or the word, with blanks around it. -/
def parse? (value : String) : Option RequiredStatus :=
  let trimmed := Text.trim value.toList
  if trimmed = noCrashWord.toList then some noCrash
  else (Text.parseInt32? trimmed).map exit

def text : RequiredStatus → String
  | exit code => Text.showInt code.toInt
  | noCrash => noCrashWord

end RequiredStatus

/-- What a test is run with and what is expected of it. -/
structure TestRecord where
  /-- The version of the record's form. -/
  schema : UInt32
  /-- The arguments, separated by single spaces. -/
  arguments : String
  status : RequiredStatus
  /-- The expected output; empty where the output does not matter. -/
  output : String
  deriving DecidableEq, Repr

namespace TestRecord

/-- The version of the records written here, and the last one that can be read. -/
def currentSchema : UInt32 := 1

def current (arguments : String) (status : RequiredStatus) (output : String) : TestRecord :=
  ⟨currentSchema, arguments, status, output⟩

def comparesOutput (r : TestRecord) : Bool :=
  !r.output.isEmpty

end TestRecord

end BuildPlan
