import BuildPlan.Toolchain.Basic

/-!
# The command table

The command templates of each supported pair of platform and profile. They refer to the inputs and
outputs of an edge by `$in` and `$out` and to the source directory by `$root`. There is no fuzzing
build on Windows.
-/

namespace BuildPlan

/-- The command templates of one platform and profile. -/
structure Commands where
  /-- Compiles one source to an object. -/
  compile : String
  /-- Links objects into the compiler. -/
  link : String
  /-- Builds the code generation tool from its one source. -/
  tool : String
  /-- Builds a scenario driver against the library. -/
  driver : String
  deriving DecidableEq, Repr

namespace Commands

def plainCompile : String := "clang -o $out $in -lm"

def windowsTool : String := "cl /nologo /wd4132 /wd4324 $in /link /out:$out"

def lookup : Platform → Profile → Option Commands
  | .linux, .debug => some {
      compile :=
        "clang -std=c11 -MMD -MT $out -MF $out.d -g -O0 -fcolor-diagnostics -fno-common " ++
        "-Wall -Werror -Wno-switch -DNDEBUG -DIMPLSTATIC= -DIMPLEXTERN=extern -pthread " ++
        "-I$root -I. -c $in -o $out"
      link :=
        "clang -o $out $in -pthread -lm -ldl -g"
      tool := plainCompile
      driver :=
        "clang -Iembed -Wall -Wextra -Werror -ldl -lm -o $out $in" }
  | .linux, .release => some {
      compile :=
        "clang -std=c11 -MMD -MT $out -MF $out.d -g -Oz -fcolor-diagnostics -fno-common " ++
        "-Wall -Werror -Wno-switch -D_DEBUG -DIMPLSTATIC= -DIMPLEXTERN=extern -pthread -c " ++
        "-I$root -I. $in -o $out"
      link :=
        "clang -o $out $in -pthread -lm -ldl -g"
      tool := plainCompile
      driver :=
        "clang -Iembed -Wall -Wextra -Werror -ldl -lm -Oz -o $out $in" }
  | .linux, .asan => some {
      compile :=
        "clang -std=c11 -MMD -MT $out -MF $out.d -g -O0 -fsanitize=address " ++
        "-fcolor-diagnostics -fno-common -Wall -Werror -Wno-switch -D_DEBUG -DIMPLSTATIC= " ++
        "-DIMPLEXTERN=extern -pthread -c -I$root -I. $in -o $out"
      link :=
        "clang -fsanitize=address -o $out $in -pthread -lm -ldl -g"
      tool := plainCompile
      driver :=
        "clang -Iembed -Wall -Wextra -Werror -ldl -lm -fsanitize=address -o $out $in" }
  | .linux, .fuzz => some {
      compile :=
        "clang -fsanitize=fuzzer -std=c11 -MMD -MT $out -MF $out.d -g -O0 " ++
        "-fcolor-diagnostics -fno-common -Wall -Werror -Wno-switch -DNDEBUG -DIMPLSTATIC= " ++
        "-DIMPLEXTERN=extern -pthread -I$root -I. -c $in -o $out"
      link :=
        "clang -fsanitize=fuzzer -o $out $in -pthread -lm -ldl -g"
      tool := plainCompile
      driver :=
        "clang -fsanitize=fuzzer -Iembed -Wall -Wextra -Werror -ldl -lm -o $out $in" }
  | .windows, .debug => some {
      compile :=
        "cl /showIncludes /nologo /FS /Od /Zi /D_DEBUG /DIMPLSTATIC= /DIMPLEXTERN=extern " ++
        "/D_CRT_SECURE_NO_DEPRECATE /W4 /WX /I$root /I. /c $in /Fo:$out /Fd:$out.pdb"
      link :=
        "link /nologo gdi32.lib user32.lib onecore.lib /DEBUG $in /out:$out /pdb:$out.pdb"
      tool := windowsTool
      driver :=
        "cl /nologo /Zi /FS /D_CRT_SECURE_NO_WARNINGS /Iembed /W4 /Wall /WX $in /link /debug " ++
        "onecore.lib user32.lib /out:$out" }
  | .windows, .release => some {
      compile :=
        "cl /showIncludes /nologo /FS /Ox /GL /Zi /DNDEBUG /DIMPLSTATIC= /DIMPLEXTERN=extern " ++
        "/D_CRT_SECURE_NO_DEPRECATE /W4 /WX /I$root /I. /c $in /Fo$out /Fd:$out.pdb"
      link :=
        "link /nologo gdi32.lib user32.lib onecore.lib /LTCG /DEBUG /OPT:REF /OPT:ICF $in " ++
        "/out:$out /pdb:$out.pdb"
      tool := windowsTool
      driver :=
        "cl /nologo /FS /D_CRT_SECURE_NO_WARNINGS /Iembed /W4 /Zi /Ox /GL /Wall /WX /wd4710 " ++
        "/wd4711 $in /link onecore.lib user32.lib /LTCG /DEBUG /out:$out" }
  | .windows, .asan => some {
      compile :=
        "cl /showIncludes /nologo /FS /Od /fsanitize=address /Zi /D_DEBUG /DIMPLSTATIC= " ++
        "/DIMPLEXTERN=extern /D_CRT_SECURE_NO_DEPRECATE /W4 /WX /I$root /I. /c $in /Fo:$out " ++
        "/Fd:$out.pdb"
      link :=
        "link /nologo gdi32.lib user32.lib onecore.lib /DEBUG $in /out:$out /pdb:$out.pdb"
      tool := windowsTool
      driver :=
        "cl /nologo /FS /D_CRT_SECURE_NO_WARNINGS /Iembed /W4 /Wall /WX $in /link /DEBUG " ++
        "onecore.lib user32.lib /out:$out" }
  | .windows, .fuzz => none

end Commands

end BuildPlan
