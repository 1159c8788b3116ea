import BuildPlan.Text.Blank

/-!
# Words of a script line

Words are separated by blanks. A bare word is taken as it stands, quotes inside it included; a word
that starts with a double quote reaches to the closing one and may hold blanks and four escapes. A
closing quote has to end its word.
-/

namespace BuildPlan.Scenario

/-- Why a line has no words. -/
inductive WordError where
  | unknownEscape (c : Char)
  | unterminated
  /-- Something follows a closing quote directly. -/
  | glued
  deriving DecidableEq, Repr

namespace WordError

def message : WordError → String
  | unknownEscape c => "unknown escape \\" ++ String.singleton c
  | unterminated => "unterminated string"
  | glued => "expected whitespace after closing quote"

end WordError

/-- The character that an escape in a quoted word stands for. -/
def escape? : Char → Option Char
  | '"' => some '"'
  | '\\' => some '\\'
  | 'n' => some '\n'
  | 't' => some '\t'
  | _ => none

/-- Where the reading of a line stands; a word under way is kept with its last character first. -/
inductive WordState where
  | between
  | bare (word : List Char)
  | quoted (word : List Char)
  /-- Behind the backslash of an escape. -/
  | escaped (word : List Char)
  /-- Behind a closing quote. -/
  | closed (word : List Char)
  deriving DecidableEq, Repr

/-- Puts a word in front of the words that follow it. -/
def consWord (word : List Char) :
    Except WordError (List (List Char)) → Except WordError (List (List Char))
  | .ok words => .ok (word.reverse :: words)
  | .error e => .error e

def wordsFrom : WordState → List Char → Except WordError (List (List Char))
  | .between, [] => .ok []
  | .bare word, [] => .ok [word.reverse]
  | .closed word, [] => .ok [word.reverse]
  | .quoted _, [] => .error .unterminated
  | .escaped _, [] => .error .unterminated
  | .between, c :: cs =>
    if Text.isBlank c then wordsFrom .between cs
    else if c = '"' then wordsFrom (.quoted []) cs
    else wordsFrom (.bare [c]) cs
  | .bare word, c :: cs =>
    if Text.isBlank c then consWord word (wordsFrom .between cs)
    else wordsFrom (.bare (c :: word)) cs
  | .quoted word, c :: cs =>
    if c = '"' then wordsFrom (.closed word) cs
    else if c = '\\' then wordsFrom (.escaped word) cs
    else wordsFrom (.quoted (c :: word)) cs
  | .escaped word, c :: cs =>
    match escape? c with
    | some e => wordsFrom (.quoted (e :: word)) cs
    | none => .error (.unknownEscape c)
  | .closed word, c :: cs =>
    if Text.isBlank c then consWord word (wordsFrom .between cs) else .error .glued

def wordsOf (line : List Char) : Except WordError (List String) :=
  match wordsFrom .between line with
  | .ok words => .ok (words.map String.ofList)
  | .error e => .error e

end BuildPlan.Scenario
