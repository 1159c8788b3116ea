import BuildPlan.Kdl.Text
import BuildPlan.Kdl.Word

/-!
# Tokens of KDL

A document is cut into tokens from left to right. Blanks, block comments and newlines behind a
backslash are space; a line comment is a newline, together with the newline that ends it.
-/

namespace BuildPlan.Kdl

inductive Token where
  | space
  | newline
  /-- Takes what follows out of the document. -/
  | slashdash
  | semicolon
  | equals
  | openParen
  | closeParen
  | openBrace
  | closeBrace
  /-- A text, quoted or bare. -/
  | text (value : String)
  | number
  | bool (value : Bool)
  | null
  deriving DecidableEq, Repr

/-- What follows a block comment of which `depth` openings have been read. -/
def skipComment? : (depth : Nat) → List Char → Option (List Char)
  | 0, s => some s
  | _ + 1, [] => none
  | depth + 1, '*' :: '/' :: rest => skipComment? depth rest
  | depth + 1, '/' :: '*' :: rest => skipComment? (depth + 2) rest
  | depth + 1, _ :: rest => skipComment? (depth + 1) rest

/-- What follows the newline that ends a line. -/
def skipLine (s : List Char) : List Char :=
  let rest := s.dropWhile fun c => !isNewline c
  (newline? rest).getD rest

/-- What follows the spaces at the front, block comments included; `fuel` bounds their number. -/
def skipSpaces? : (fuel : Nat) → List Char → Option (List Char)
  | 0, s => some s
  | fuel + 1, s =>
    match s with
    | '/' :: '*' :: rest =>
      match skipComment? 1 rest with
      | some rest => skipSpaces? fuel rest
      | none => none
    | c :: rest => if isSpace c then skipSpaces? fuel rest else some s
    | [] => some []

/-- What follows the newline behind a backslash. -/
def continueLine? (s : List Char) : Option (List Char) :=
  match skipSpaces? s.length s with
  | none => none
  | some [] => some []
  | some ('/' :: '/' :: rest) => some (skipLine rest)
  | some rest => newline? rest

/-- The value that a word behind a mark stands for. -/
def keyword? (word : String) : Option Token :=
  match word with
  | "true" => some (.bool true)
  | "false" => some (.bool false)
  | "null" => some .null
  | "inf" => some .number
  | "-inf" => some .number
  | "nan" => some .number
  | _ => none

def readMarked (s : List Char) : Option (Token × List Char) :=
  match s.dropWhile (· == '#') with
  | '"' :: rest =>
    (readRaw ((s.takeWhile (· == '#')).length + 1) ('"' :: rest)).map fun r =>
      (.text (String.ofList r.1), r.2)
  | _ =>
    (keyword? (String.ofList (s.takeWhile isWordChar))).map fun t => (t, s.dropWhile isWordChar)

/-- The token that a run of word characters is. -/
def runToken? (run : List Char) : Option Token :=
  if looksNumeric run then if isNumber run then some .number else none
  else if isBareWord run then some (.text (String.ofList run))
  else none

/-- The first token of a text that is not empty. -/
def readToken : List Char → Option (Token × List Char)
  | [] => none
  | '/' :: '/' :: rest => some (.newline, skipLine rest)
  | '/' :: '*' :: rest => (skipComment? 1 rest).map fun rest => (.space, rest)
  | '/' :: '-' :: rest => some (.slashdash, rest)
  | '\\' :: rest => (continueLine? rest).map fun rest => (.space, rest)
  | '(' :: rest => some (.openParen, rest)
  | ')' :: rest => some (.closeParen, rest)
  | '\x7b' :: rest => some (.openBrace, rest)
  | '\x7d' :: rest => some (.closeBrace, rest)
  | ';' :: rest => some (.semicolon, rest)
  | '=' :: rest => some (.equals, rest)
  | '"' :: rest => (readQuoted rest).map fun r => (.text (String.ofList r.1), r.2)
  | '#' :: rest => readMarked rest
  | c :: rest =>
    if isSpace c then some (.space, rest)
    else
      match newline? (c :: rest) with
      | some rest => some (.newline, rest)
      | none =>
        (runToken? ((c :: rest).takeWhile isWordChar)).map fun t =>
          (t, (c :: rest).dropWhile isWordChar)

/-- The tokens of a text; `fuel` bounds their number. -/
def tokensFrom : (fuel : Nat) → List Char → Option (List Token)
  | _, [] => some []
  | 0, _ :: _ => none
  | fuel + 1, c :: cs =>
    match readToken (c :: cs) with
    | none => none
    | some (t, rest) => (tokensFrom fuel rest).map (t :: ·)

/-- A text without a byte order mark in front. -/
def dropByteOrderMark : List Char → List Char
  | '\uFEFF' :: rest => rest
  | s => s

def tokens? (s : String) : Option (List Token) :=
  tokensFrom (s.length + 1) (dropByteOrderMark s.toList)

end BuildPlan.Kdl
