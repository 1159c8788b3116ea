import BuildPlan.Text.Numeral
import BuildPlan.Text.Split
import BuildPlan.Text.Utf8
import BuildPlan.Text.Wrap

/-!
# Packed headers

The headers that a compiler carries, laid end to end in one run of bytes with a NUL after each, and
a table of where each starts. The table and the bytes are written as a C header of their own.
-/

namespace BuildPlan

/-- The name a header is found by, and where its contents start. -/
structure PackedEntry where
  path : String
  offset : Nat
  deriving DecidableEq, Repr

/-- Headers in one run of bytes. -/
structure PackedHeaders where
  /-- In the order in which they were added. -/
  entries : List PackedEntry := []
  bytes : Bytes := []
  deriving DecidableEq, Repr

namespace PackedHeaders

def push (h : PackedHeaders) (path : String) (contents : Bytes) : PackedHeaders :=
  { entries := h.entries ++ [⟨path, h.bytes.length⟩], bytes := h.bytes ++ contents ++ [0] }

/-- The bytes before the first NUL. -/
def untilNul (bytes : Bytes) : Bytes :=
  bytes.takeWhile (· != 0)

/-- What the first entry of that name holds, up to a NUL. -/
def get? (h : PackedHeaders) (path : String) : Option Bytes :=
  (h.entries.find? (·.path == path)).map fun e => untilNul (h.bytes.drop e.offset)

/-! ## The written form -/

/-- The greatest length of a line of byte values. -/
def lineWidth : Nat := 78

/-- The byte values, each but the last with a comma. -/
def byteWords : Bytes → List (List Char)
  | [] => []
  | [b] => [Nat.toDigits 10 b.toNat]
  | b :: c :: rest => (Nat.toDigits 10 b.toNat ++ [',']) :: byteWords (c :: rest)

def byteLines (bytes : Bytes) : List String :=
  (Text.wrap lineWidth (byteWords bytes)).map String.ofList

/-- What stands before the table: a notice and the type of its rows. -/
def preamble : List String :=
  ["// Generated by kiln-pack. Do not edit.", "", "typedef struct CompilerInclude \x7b",
    "    char* path;", "    int offset;", "\x7d CompilerInclude;", ""]

def row (e : PackedEntry) : String :=
  "    \x7b \"" ++ e.path ++ "\", " ++ Nat.repr e.offset ++ " \x7d,"

def render (h : PackedHeaders) : String :=
  Text.unlines (preamble ++
    ["static CompilerInclude compiler_includes[" ++ Nat.repr h.entries.length ++ "] = \x7b"] ++
    h.entries.map row ++
    ["\x7d;",
      "static unsigned char compiler_include_blob[" ++ Nat.repr h.bytes.length ++ "] = \x7b"] ++
    byteLines h.bytes ++ ["\x7d;"])

end PackedHeaders

end BuildPlan
