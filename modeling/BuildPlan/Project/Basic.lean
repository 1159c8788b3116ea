import BuildPlan.Project.Pattern
import BuildPlan.Text.Quoted
import BuildPlan.Text.Search

/-!
# Projects

What a project manifest says: where the sources of a C compiler are, how code is generated for it,
which headers it carries, what goes into its single-file library, and how it is tested. Texts are
kept as written; what they mean is decided where they are used.
-/

namespace BuildPlan

namespace Project

/-- What can be wrong with a value of the manifest. -/
inductive Flaw where
  | emptyName
  | listedTwice (source : String)
  | unknownConsumer (source : String)
  /-- An item of the library that no step generates. -/
  | notGenerated (item : String)
  | badVariant (found : String)
  | badBase (found : String)
  | badPattern (found : String)
  | withoutSources
  deriving DecidableEq, Repr

namespace Flaw

def invalid (property reason : String) : String :=
  "invalid value for " ++ property ++ ": " ++ reason

def message : Flaw → String
  | emptyName => invalid "project.name" "name cannot be empty"
  | listedTwice source => invalid "source.path" (source ++ " is listed twice")
  | unknownConsumer source => invalid "includes.consumer" (source ++ " is not a listed source")
  | notGenerated item => invalid "amalg.from" (item ++ " is not generated by any step")
  | badVariant found =>
    invalid "source.variant" ("expected main or fuzz, got " ++ Text.quoted found)
  | badBase found =>
    invalid "amalg.from" ("expected src, top or out, got " ++ Text.quoted found)
  | badPattern found =>
    invalid "tests pattern" (Text.quoted found ++ " must be a file name with at most one '*'")
  | withoutSources => "no sources listed"

end Flaw

/-- The project itself. -/
structure General where
  /-- The name of the compiler. -/
  name : String
  /-- The source directory, relative to the project. -/
  src : String
  /-- The directory of the build directories. -/
  out : String
  deriving DecidableEq, Repr

/-- How code is generated by an assembler; all paths are relative to the source directory. -/
structure Codegen where
  input : String
  /-- What the names of the generated files start with. -/
  output : String
  /-- The one source of the tool that runs the assembler. -/
  tool : String
  script : String
  deriving DecidableEq, Repr

/-- The name of the tool: that of its source, without its ending. -/
def Codegen.toolStem (c : Codegen) : String :=
  let file := match Text.splitLast '/' c.tool.toList with
    | some (_, file) => file
    | none => c.tool.toList
  match Text.stripStart? ['c', '.'] file.reverse with
  | some stem => String.ofList stem.reverse
  | none => String.ofList file

/-- The headers that the compiler carries. -/
structure Includes where
  /-- Their directory, relative to the project. -/
  dir : String
  /-- The header that they are packed into. -/
  output : String
  /-- The source that includes that header. -/
  consumer : Option String
  deriving DecidableEq, Repr

/-- What the path of an item of the library is relative to. -/
inductive Base where
  /-- The source directory. -/
  | src
  /-- The project. -/
  | top
  /-- The build directory. -/
  | out
  deriving DecidableEq, Repr

/-- A further file of the library. -/
structure Item where
  path : String
  base : Option String
  deriving DecidableEq, Repr

/-- What the item's path is relative to. -/
def Item.base? (i : Item) : Except Flaw Base :=
  match i.base with
  | none => .ok .src
  | some "src" => .ok .src
  | some "top" => .ok .top
  | some "out" => .ok .out
  | some other => .error (.badBase other)

/-- The library in a single file. -/
structure Library where
  /-- Its directory, relative to the build directory. -/
  dir : String
  name : String
  /-- The public header, relative to the source directory. -/
  header : String
  /-- The license text, relative to the project. -/
  license : String
  /-- The symbol that selects the generated code for Windows. -/
  switch : String
  /-- What comes before the sources. -/
  prelude : List Item
  /-- What comes after the sources. -/
  epilogue : List Item
  deriving DecidableEq, Repr

def Library.items (l : Library) : List Item :=
  l.prelude ++ l.epilogue

def readPattern (s : String) : Except Flaw NamePattern :=
  match NamePattern.ofString? s with
  | some p => .ok p
  | none => .error (.badPattern s)

/-- The tests. -/
structure Tests where
  /-- The directory of the fixtures and scenarios, relative to the project. -/
  dir : String
  /-- The file that is compiled with every fixture. -/
  support : String
  fixtures : Option String
  scenarios : Option String
  /-- The directory of inputs that the fuzzer found. -/
  fuzz : Option String
  /-- The arguments of a fixture that gives none. -/
  run : Option String
  deriving DecidableEq, Repr

namespace Tests

def fixtureNames (t : Tests) : Except Flaw NamePattern :=
  readPattern (t.fixtures.getD "*.c")

def scenarioNames (t : Tests) : Except Flaw NamePattern :=
  readPattern (t.scenarios.getD "update_*.scn")

/-- The arguments of a fixture that gives none. -/
def fallbackArguments (t : Tests) : String :=
  match t.run with
  | some run => run
  | none => "-I" ++ t.dir ++ " " ++ t.support ++ " \x7bself\x7d"

end Tests

/-- Which builds a source with an entry point belongs to. -/
inductive Variant where
  | main
  | fuzz
  deriving DecidableEq, Repr

/-- Whether a source of the variant is compiled into a build. -/
def Variant.isIn (fuzzBuild : Bool) : Variant → Bool
  | main => !fuzzBuild
  | fuzz => fuzzBuild

/-- A source of the compiler. -/
structure Source where
  /-- Relative to the source directory. -/
  path : String
  variant : Option String
  deriving DecidableEq, Repr

def Source.variant? (s : Source) : Except Flaw (Option Variant) :=
  match s.variant with
  | none => .ok none
  | some "main" => .ok (some .main)
  | some "fuzz" => .ok (some .fuzz)
  | some other => .error (.badVariant other)

end Project

/-- A project. -/
structure Project where
  general : Project.General
  codegen : Project.Codegen
  includes : Project.Includes
  library : Project.Library
  tests : Project.Tests
  /-- In the order of the manifest. -/
  sources : List Project.Source
  deriving DecidableEq, Repr

namespace Project

/-- The sources of the library: those without an entry point. -/
def sharedSources (p : Project) : List Source :=
  p.sources.filter (·.variant.isNone)

end Project

end BuildPlan
