/-!
# Writing texts in JSON

A text is written between quotes. It is worked off in chunks: where the next sixteen characters are
ASCII and none of them is a quote, a backslash or below the space, they are copied; otherwise
characters are escaped one by one until they make up at least sixteen bytes. So a DEL is escaped
only outside a copied chunk; every other character is written in one way.
-/

namespace BuildPlan.Json

/-- A character that a copied chunk may hold. -/
def isPlain (c : Char) : Bool :=
  0x20 ≤ c.toNat && c.toNat < 0x80 && c != '"' && c != '\\'

/-- The size of a chunk in bytes. -/
def chunkSize : Nat := 16

def startsPlain (s : List Char) : Bool :=
  (s.take chunkSize).length == chunkSize && (s.take chunkSize).all isPlain

/-- The escape of a character by its code point, in two digits. -/
def codeEscape (n : Nat) : List Char :=
  ['\\', 'u', '0', '0', Nat.digitChar (n / 16), Nat.digitChar (n % 16)]

def escapeChar (c : Char) : List Char :=
  if c = '"' then ['\\', '"']
  else if c = '\\' then ['\\', '\\']
  else if c = '\n' then ['\\', 'n']
  else if c = '\r' then ['\\', 'r']
  else if c = '\t' then ['\\', 't']
  else if c = '\x08' then ['\\', 'b']
  else if c = '\x0c' then ['\\', 'f']
  else if c.toNat < 0x20 ∨ c = '\x7f' then codeEscape c.toNat
  else [c]

/-- Writes the rest of a text, of which `left` bytes belong to the chunk under way. -/
def escapeFrom : (copying : Bool) → (left : Nat) → List Char → List Char
  | _, _, [] => []
  | _, 0, c :: cs =>
    if startsPlain (c :: cs) then c :: escapeFrom true (chunkSize - 1) cs
    else escapeChar c ++ escapeFrom false (chunkSize - c.utf8Size) cs
  | true, left + 1, c :: cs => c :: escapeFrom true left cs
  | false, left + 1, c :: cs => escapeChar c ++ escapeFrom false (left + 1 - c.utf8Size) cs

def writeText (s : String) : String :=
  String.ofList ('"' :: escapeFrom false 0 s.toList ++ ['"'])

end BuildPlan.Json
