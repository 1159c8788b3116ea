/-!
# Platforms, profiles and code generation variants

A build directory belongs to one platform and one profile. The compiler under construction has one
code generation variant for each calling convention; the platform decides which one is linked.
-/

namespace BuildPlan

/-- The calling convention that generated code follows. -/
inductive Abi where
  | win64
  | sysV
  deriving DecidableEq, Repr

namespace Abi

/-- The variants in the order in which they are generated. -/
def all : List Abi := [sysV, win64]

/-- The letter in the names of generated files. -/
def tag : Abi → String
  | win64 => "w"
  | sysV => "l"

/-- The symbol that the assembler is given. -/
def symbol : Abi → String
  | win64 => "WIN"
  | sysV => "SYSV"

end Abi

/-- How a compiler reports the headers it read. -/
inductive HeaderReport where
  /-- It does not. -/
  | none
  /-- In a makefile beside the object. -/
  | makefile
  /-- In lines on its output. -/
  | listing
  deriving DecidableEq, Repr

namespace HeaderReport

/-- The `deps` variable of a compile rule. -/
def deps : HeaderReport → Option String
  | none => Option.none
  | makefile => some "gcc"
  | listing => some "msvc"

/-- The `depfile` variable of a compile rule. -/
def depfile : HeaderReport → Option String
  | makefile => some "$out.d"
  | none => Option.none
  | listing => Option.none

end HeaderReport

/-- A platform to build on and for. -/
inductive Platform where
  | linux
  | windows
  deriving DecidableEq, Repr

namespace Platform

/-- The platform with the given operating system name. -/
def ofName? : String → Option Platform
  | "linux" => some linux
  | "windows" => some windows
  | _ => none

/-- The platform that this library plans for when none is named. -/
def host : Platform := linux

def name : Platform → String
  | linux => "linux"
  | windows => "windows"

/-- The first letter of a build directory's name. -/
def tag : Platform → String
  | linux => "l"
  | windows => "w"

/-- The variant that programs of this platform link. -/
def abi : Platform → Abi
  | linux => .sysV
  | windows => .win64

def programSuffix : Platform → String
  | linux => ""
  | windows => ".exe"

def objectSuffix : Platform → String
  | linux => ".o"
  | windows => ".obj"

/-- How the compiler of this platform reports headers. -/
def headerReport : Platform → HeaderReport
  | linux => .makefile
  | windows => .listing

end Platform

/-- The kind of a build. -/
inductive Profile where
  | debug
  | release
  /-- With the address sanitizer. -/
  | asan
  /-- With the fuzzer's entry point in place of the usual one. -/
  | fuzz
  deriving DecidableEq, Repr

namespace Profile

/-- All profiles, in the order in which they are planned. -/
def all : List Profile := [debug, release, asan, fuzz]

def name : Profile → String
  | debug => "debug"
  | release => "release"
  | asan => "asan"
  | fuzz => "fuzz"

def ofName? : String → Option Profile
  | "debug" => some debug
  | "release" => some release
  | "asan" => some asan
  | "fuzz" => some fuzz
  | _ => none

/-- The second letter of a build directory's name. -/
def tag : Profile → String
  | debug => "d"
  | release => "r"
  | asan => "a"
  | fuzz => "f"

def fuzzes : Profile → Bool
  | fuzz => true
  | _ => false

end Profile

end BuildPlan
