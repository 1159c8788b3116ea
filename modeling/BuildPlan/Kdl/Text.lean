import BuildPlan.Kdl.Character
import BuildPlan.Text.Hex

/-!
# Quoted texts of KDL

A quoted text stands on one line, or between triple quotes on several; with `#` around the quotes it
is raw, and nothing in it is an escape. A text on several lines starts behind its first newline and
ends before its last one. What stands before the closing quotes is the margin: every line but a
blank one starts with it and loses it. A backslash in front of blanks or newlines takes them away,
which happens before the margin is; all other escapes are resolved after.
-/

namespace BuildPlan.Kdl

def skipBlanks (s : List Char) : List Char :=
  s.dropWhile fun c => isSpace c || isNewline c

/-! ## Escapes -/

/-- The character with the given code point. -/
def scalar? (n : Nat) : Option Char :=
  if n < 0xD800 ∨ (0xDFFF < n ∧ n < 0x110000) then some (Char.ofNat n) else none

/-- The character that an escape by one letter stands for. -/
def letter? : Char → Option Char
  | '"' => some '"'
  | '\\' => some '\\'
  | 'b' => some '\x08'
  | 'f' => some '\x0c'
  | 'n' => some '\n'
  | 'r' => some '\r'
  | 's' => some ' '
  | 't' => some '\t'
  | _ => none

/-- Where the resolving of escapes stands. -/
inductive EscapeState where
  | plain
  /-- Behind a backslash. -/
  | open
  /-- Behind the letter of an escape by code point. -/
  | brace
  /-- In an escape by code point, with the digits so far. -/
  | code (digits value : Nat)
  deriving DecidableEq, Repr

def unescapeFrom : EscapeState → List Char → Option (List Char)
  | .plain, [] => some []
  | .open, [] => none
  | .brace, [] => none
  | .code _ _, [] => none
  | .plain, c :: cs =>
    if c = '\\' then unescapeFrom .open cs else (unescapeFrom .plain cs).map (c :: ·)
  | .open, c :: cs =>
    if c = 'u' then unescapeFrom .brace cs
    else
      match letter? c with
      | some e => (unescapeFrom .plain cs).map (e :: ·)
      | none => none
  | .brace, c :: cs => if c = '\x7b' then unescapeFrom (.code 0 0) cs else none
  | .code digits value, c :: cs =>
    if c = '\x7d' then
      if digits = 0 then none
      else
        match scalar? value with
        | some e => (unescapeFrom .plain cs).map (e :: ·)
        | none => none
    else if digits < 6 then
      match Text.hexDigitValue? c with
      | some d => unescapeFrom (.code (digits + 1) (value * 16 + d)) cs
      | none => none
    else none

/-- The text without backslashes in front of blanks, and without these blanks. -/
def joinBlanks : (skipping : Bool) → List Char → List Char
  | _, [] => []
  | true, c :: cs =>
    if isSpace c || isNewline c then joinBlanks true cs
    else if c = '\\' then
      match cs with
      | [] => [c]
      | d :: ds =>
        if isSpace d || isNewline d then joinBlanks true ds else c :: d :: joinBlanks false ds
    else c :: joinBlanks false cs
  | false, c :: cs =>
    if c = '\\' then
      match cs with
      | [] => [c]
      | d :: ds =>
        if isSpace d || isNewline d then joinBlanks true ds else c :: d :: joinBlanks false ds
    else c :: joinBlanks false cs

/-! ## Several lines -/

/-- A line without its margin; a blank line is empty. -/
def dropMargin? (margin line : List Char) : Option (List Char) :=
  if line.all isSpace then some []
  else if margin.isPrefixOf line then some (line.drop margin.length)
  else none

/-- The contents of a text on several lines, from what stands between its triple quotes. -/
def dedent? (body : List Char) : Option (List Char) :=
  match splitLines body with
  | [] => none
  | first :: rest =>
    match first, rest.reverse with
    | [], margin :: lines =>
      if margin.all isSpace then
        (lines.reverse.mapM (dropMargin? margin)).map fun lines =>
          ['\n'].intercalate lines
      else none
    | _, _ => none

/-! ## Where a text ends -/

/-- What stands before three quotes in a row and what follows them; an escaped quote does not
count. -/
def untilTriple : List Char → Option (List Char × List Char)
  | [] => none
  | '"' :: '"' :: '"' :: rest => some ([], rest)
  | '\\' :: c :: rest => (untilTriple rest).map fun r => ('\\' :: c :: r.1, r.2)
  | c :: rest => (untilTriple rest).map fun r => (c :: r.1, r.2)

/-- What stands before a quote and what follows it; an escaped quote does not count. -/
def untilQuote : List Char → Option (List Char × List Char)
  | [] => none
  | '"' :: rest => some ([], rest)
  | '\\' :: c :: rest => (untilQuote rest).map fun r => ('\\' :: c :: r.1, r.2)
  | c :: rest => (untilQuote rest).map fun r => (c :: r.1, r.2)

/-- What stands before the mark that closes a raw text and what follows it. -/
def untilMark (mark : List Char) : List Char → Option (List Char × List Char)
  | [] => none
  | c :: rest =>
    if mark.isPrefixOf (c :: rest) then some ([], (c :: rest).drop mark.length)
    else (untilMark mark rest).map fun r => (c :: r.1, r.2)

/-! ## Texts -/

/-- A text on one line may hold no newline, and no text a forbidden character. -/
def onOneLine? (body : List Char) : Option (List Char) :=
  if body.any (fun c => isNewline c || isForbidden c) then none else some body

def allowed? (body : List Char) : Option (List Char) :=
  if body.any isForbidden then none else some body

/-- Reads a quoted text behind its opening quote, and returns what follows its closing one. -/
def readQuoted : List Char → Option (List Char × List Char)
  | '"' :: '"' :: rest => do
    let (body, rest) ← untilTriple rest
    let body ← allowed? body
    let body ← dedent? (joinBlanks false body)
    let text ← unescapeFrom .plain body
    pure (text, rest)
  | s => do
    let (body, rest) ← untilQuote s
    let body ← onOneLine? (joinBlanks false body)
    let text ← unescapeFrom .plain body
    pure (text, rest)

/-- Reads a raw text behind its `hashes` opening marks. -/
def readRaw (hashes : Nat) : List Char → Option (List Char × List Char)
  | '"' :: '"' :: '"' :: rest => do
    let (body, rest) ← untilMark (List.replicate 3 '"' ++ List.replicate hashes '#') rest
    let body ← allowed? body
    let text ← dedent? body
    pure (text, rest)
  | '"' :: rest => do
    let (body, rest) ← untilMark ('"' :: List.replicate hashes '#') rest
    let text ← onOneLine? body
    pure (text, rest)
  | _ => none

end BuildPlan.Kdl
