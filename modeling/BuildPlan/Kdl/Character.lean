/-!
# Characters of KDL

Newlines, blanks, the characters of bare words and those that no document may hold as themselves.
A newline counts once, also where it is a carriage return and a line feed.
-/

namespace BuildPlan.Kdl

def isNewline (c : Char) : Bool :=
  c == '\n' || c == '\r' || c == '\x0b' || c == '\x0c' || c == '\u0085' || c == '\u2028' ||
  c == '\u2029'

def isSpace (c : Char) : Bool :=
  let n := c.toNat
  c == ' ' || c == '\t' || n == 0xA0 || n == 0x1680 || (0x2000 ≤ n && n ≤ 0x200A) || n == 0x202F ||
  n == 0x205F || n == 0x3000

/-- A character that no document may hold but by an escape: controls, marks of direction and the
byte order mark. -/
def isForbidden (c : Char) : Bool :=
  let n := c.toNat
  n ≤ 0x08 || (0x0E ≤ n && n ≤ 0x1F) || n == 0x7F || (0x200E ≤ n && n ≤ 0x200F) ||
  (0x202A ≤ n && n ≤ 0x202E) || (0x2066 ≤ n && n ≤ 0x2069) || n == 0xFEFF

def isDelimiter (c : Char) : Bool :=
  c == '\\' || c == '/' || c == '(' || c == ')' || c == '\x7b' || c == '\x7d' || c == '[' ||
  c == ']' || c == ';' || c == '"' || c == '#' || c == '='

/-- A character of a bare word or of a number. -/
def isWordChar (c : Char) : Bool :=
  !(isNewline c || isSpace c || isForbidden c || isDelimiter c)

/-- What follows the newline that a text starts with. -/
def newline? : List Char → Option (List Char)
  | '\r' :: '\n' :: rest => some rest
  | c :: rest => if isNewline c then some rest else none
  | [] => none

/-- The lines of a text, without what ends them; never the empty list. -/
def splitLines : List Char → List (List Char)
  | [] => [[]]
  | '\r' :: '\n' :: rest => [] :: splitLines rest
  | c :: rest =>
    if isNewline c then [] :: splitLines rest
    else
      match splitLines rest with
      | [] => [[c]]
      | l :: ls => (c :: l) :: ls

end BuildPlan.Kdl
