import BuildPlan.Scenario.Basic
import BuildPlan.Text.CLiteral
import BuildPlan.Text.Line
import BuildPlan.Text.Split

/-!
# Drivers

A scenario is compiled to a C program that drives the compiler through it: two look-up functions
that the compiler calls back, and a main function that makes the first build and then takes the
steps in order. The statements of the main function are data. Whatever goes wrong sets a result,
and goes to the one place where the compiler's state is freed.
-/

namespace BuildPlan.Scenario.Driver

/-! ## Statements -/

/-- What can go wrong in a session. -/
inductive Failure where
  /-- The first build is rejected. -/
  | initialUpdate
  /-- New contents of a file are rejected. -/
  | update (file buffer : String)
  /-- The entry point is not there. -/
  | noEntry (origin entry : String)
  /-- The entry point returns another value. -/
  | value (origin : String) (expected : Int32)
  deriving DecidableEq, Repr

/-- The result of the driver when something went wrong. -/
def Failure.result : Failure → Nat
  | initialUpdate => 255
  | update _ _ => 255
  | noEntry _ _ => 254
  | value _ _ => 253

/-- A statement of the main function. -/
inductive Statement where
  /-- Declares a buffer that holds a text. -/
  | buffer (name contents : String)
  /-- Looks up the entry point. -/
  | findEntry (entry : String)
  /-- Calls the entry point and keeps its result. -/
  | callEntry
  /-- Asks whether something went wrong, and if so reports it and leaves. -/
  | guard (failure : Failure)
  /-- Reports a result that was expected. -/
  | reportValue (origin : String)
  deriving DecidableEq, Repr

/-- The name of the buffer for the update at a position among the steps. -/
def bufferName (index : Nat) : String :=
  "contents_step" ++ Nat.repr index

/-- The statements for the step at a position. -/
def statements (entry : String) (index : Nat) : Step → List Statement
  | .update file contents =>
    [.buffer (bufferName index) contents, .guard (.update file (bufferName index))]
  | .expect value origin =>
    [.findEntry entry, .guard (.noEntry origin.text entry), .callEntry,
      .guard (.value origin.text value), .reportValue origin.text]

/-- The blocks of statements for steps of which the first has the given position. -/
def blocksFrom (entry : String) (index : Nat) : List Step → List (List Statement)
  | [] => []
  | step :: rest => statements entry index step :: blocksFrom entry (index + 1) rest

def blocks (s : Scenario) : List (List Statement) :=
  blocksFrom s.entry 0 s.steps

/-! ## Statements as text -/

def Failure.condition : Failure → String
  | initialUpdate => "!dyibicc_update(ctx, NULL, NULL)"
  | update file buffer => "!dyibicc_update(ctx, " ++ Text.cLiteral file ++ ", " ++ buffer ++ ")"
  | noEntry _ _ => "!entry_point"
  | value _ expected => "result != " ++ Text.showInt expected.toInt

def Failure.report : Failure → String
  | initialUpdate => "\"initial update failed\\n\""
  | update file _ => "\"%s: update failed\\n\", " ++ Text.cLiteral file
  | noEntry origin entry =>
    "\"%s: entry point %s not found\\n\", " ++ Text.cLiteral origin ++ ", " ++ Text.cLiteral entry
  | value origin expected =>
    "\"%s: got %d, but expected %d\\n\", " ++ Text.cLiteral origin ++ ", result, " ++
      Text.showInt expected.toInt

def Failure.lines (f : Failure) (indent : String) : List String :=
  [indent ++ "if (" ++ f.condition ++ ") \x7b",
    indent ++ "  printf(" ++ f.report ++ ");",
    indent ++ "  final_result = " ++ Nat.repr f.result ++ ";",
    indent ++ "  goto fail;",
    indent ++ "\x7d"]

def Statement.lines : Statement → List String
  | buffer name contents => Text.cByteArray "    " name contents
  | findEntry entry =>
    ["    void* entry_point = dyibicc_find_export(ctx, " ++ Text.cLiteral entry ++ ");"]
  | callEntry =>
    ["    char* entry_argv[] = \x7b\"prog\", NULL\x7d;",
      "    int result = ((int (*)(int, char**))entry_point)(1, entry_argv);"]
  | guard failure => failure.lines "    "
  | reportValue origin =>
    ["    printf(\"%s: OK (%d)\\n\", " ++ Text.cLiteral origin ++ ", result);"]

def blockLines (block : List Statement) : List String :=
  ["  \x7b"] ++ block.flatMap Statement.lines ++ ["  \x7d", ""]

/-! ## The program -/

def headerLines : List String :=
  ["#include \"libdyibicc.h\"", "#include <stdbool.h>", "#include <stdio.h>",
    "#include <stdlib.h>", "#include <string.h>", ""]

/-- The function by which the compiler finds the host's functions. -/
def helperLines (helpers : List String) : List String :=
  ["static void* get_host_helper_func(const char* name) \x7b", "  (void)name;"] ++
  helpers.map (fun helper =>
    "  if (strcmp(" ++ Text.cLiteral helper ++ ", name) == 0) return (void*)" ++ helper ++ ";") ++
  ["  return NULL;", "\x7d", ""]

def initialName (index : Nat) : String :=
  "initial_" ++ Nat.repr index

/-- The part of the look-up that answers for the file at a position. -/
def fileLines (index : Nat) (file : TrackedFile) : List String :=
  let size := Text.utf8Length file.contents
  ["  if (strcmp(" ++ Text.cLiteral file.path ++ ", filename) == 0) \x7b"] ++
  Text.cByteArray "    " (initialName index) file.contents ++
  ["    *contents = malloc(" ++ Nat.repr (size + 1) ++ ");",
    "    if (!*contents) return false;",
    "    memcpy(*contents, " ++ initialName index ++ ", " ++ Nat.repr (size + 1) ++ ");",
    "    *size = " ++ Nat.repr size ++ ";",
    "    return true;",
    "  \x7d",
    ""]

/-- The parts of the look-up for files of which the first has the given position. -/
def filesFrom (index : Nat) : List TrackedFile → List String
  | [] => []
  | file :: rest => fileLines index file ++ filesFrom (index + 1) rest

/-- The part of the look-up that reads any other file from disk. -/
def diskLines : List String :=
  ["  FILE* fp = fopen(filename, \"rb\");",
    "  if (!fp) \x7b",
    "    return false;",
    "  \x7d",
    "  fseek(fp, 0, SEEK_END);",
    "  long len = ftell(fp);",
    "  rewind(fp);",
    "  if (len < 0) \x7b",
    "    fclose(fp);",
    "    return false;",
    "  \x7d",
    "  *size = (size_t)len;",
    "  *contents = malloc(*size + 1);",
    "  if (!*contents || fread(*contents, 1, *size, fp) != *size) \x7b",
    "    free(*contents);",
    "    fclose(fp);",
    "    return false;",
    "  \x7d",
    "  (*contents)[*size] = 0;",
    "  fclose(fp);",
    "  return true;",
    "\x7d",
    ""]

/-- The function by which the compiler reads files. A managed file has its first contents there;
later ones reach the compiler by updates only. -/
def lookupLines (files : List TrackedFile) : List String :=
  ["static bool get_file_by_name(const char* filename, char** contents, size_t* size) \x7b"] ++
  filesFrom 0 files ++ diskLines

/-- An array of texts that ends with a null pointer. -/
def cArray (name : String) (items : List String) : String :=
  "  const char* " ++ name ++ "[] = \x7b" ++
    Text.joinWith ", " (items.map Text.cLiteral ++ ["NULL"]) ++ "\x7d;"

/-- The directory of the compiler's own headers, seen from where the driver runs. -/
def includeDir : String := "embed/include"

/-- The start of the main function, up to the first build. -/
def setupLines (s : Scenario) : List String :=
  ["int main(void) \x7b",
    cArray "include_paths" s.includePaths,
    cArray "input_paths" (s.files.map TrackedFile.path),
    "",
    "  DyibiccEnviromentData env_data = \x7b",
    "      .include_paths = include_paths,",
    "      .files = input_paths,",
    "      .dyibicc_include_dir = " ++ Text.cLiteral includeDir ++ ",",
    "      .load_file_contents = get_file_by_name,",
    "      .get_function_address = get_host_helper_func,",
    "      .output_function = NULL,",
    "      .use_ansi_codes = false,",
    "  \x7d;",
    "",
    "  DyibiccContext* ctx = dyibicc_set_environment(&env_data);",
    "  int final_result = 0;",
    ""]

def tailLines : List String :=
  ["  printf(\"OK\\n\");",
    "",
    "fail:",
    "  dyibicc_free(ctx);",
    "  return final_result;",
    "\x7d"]

def mainLines (s : Scenario) : List String :=
  setupLines s ++ Failure.initialUpdate.lines "  " ++ [""] ++ (blocks s).flatMap blockLines ++
    tailLines

def hostCodeLine (code : String) : String :=
  String.ofList ((Text.stripEnd? '\n' code.toList).getD code.toList)

/-- The host code, with a blank line behind it, or nothing where there is none. -/
def hostCodeLines (code : List String) : List String :=
  if code.isEmpty then [] else code.map hostCodeLine ++ [""]

/-- The lines of the driver; host code counts as one line, whatever it holds. -/
def programLines (s : Scenario) : List String :=
  ["// Generated by kiln-gen from " ++ s.name ++ ". Do not edit.", ""] ++
  hostCodeLines s.hostCode ++ headerLines ++ helperLines s.hostHelpers ++ lookupLines s.files ++
  mainLines s

end Driver

def driver (s : Scenario) : String :=
  Text.unlines (Driver.programLines s)

end BuildPlan.Scenario
