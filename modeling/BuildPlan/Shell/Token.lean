import BuildPlan.Shell.Syntax
import BuildPlan.Text.Line
import BuildPlan.Text.Split

/-!
# Shell tokens

A script as a list of words, operators and redirections. A text that no token starts, such as a
quote that is never closed, becomes a token that no command admits, so all that comes before it can
still run.
-/

namespace BuildPlan.Shell

/-- A token. -/
inductive Token where
  | word (w : Word)
  /-- An operator or the end of a line. -/
  | mark (text : String)
  | redirect (descriptor : Nat) (action : Redirect)
  /-- The input that stands in the script itself. -/
  | here (descriptor : Nat) (body : Word)
  | bad
  deriving DecidableEq, Repr

/-! ## Pieces -/

/-- Whether a character ends a word. -/
def isMeta (c : Char) : Bool :=
  [' ', '\t', '\n', '|', '&', ';', '<', '>', '(', ')'].contains c

def isNameStart (c : Char) : Bool :=
  c.isAlpha || c = '_'

/-- Whether a character can stand in a name. -/
def isNameChar (c : Char) : Bool :=
  c.isAlphanum || c = '_'

def prepend (c : Char) (quoted : Bool) : Word → Word
  | .text cs q :: rest => if q = quoted then .text (c :: cs) q :: rest
      else .text [c] quoted :: .text cs q :: rest
  | rest => .text [c] quoted :: rest

/-- A text up to a character, and what follows it. -/
def cutAt (stop : Char) : List Char → Option (List Char × List Char)
  | [] => none
  | c :: cs => if c = stop then some ([], cs) else (cutAt stop cs).map fun (a, b) => (c :: a, b)

/-- A text up to the character that closes what is open, and what follows it; `quote` is the quote
that is open. -/
def enclosed (opener closer : Char) :
    (depth : Nat) → (quote : Option Char) → List Char → Option (List Char × List Char)
  | _, _, [] => none
  | depth, quote, c :: cs =>
    let more (depth : Nat) (quote : Option Char) : Option (List Char × List Char) :=
      (enclosed opener closer depth quote cs).map fun (a, b) => (c :: a, b)
    if quote = some '\\' then more depth none
    else if c = '\\' && quote = none then more depth (some '\\')
    else if some c = quote then more depth none
    else if quote.isSome then more depth quote
    else if c = '"' || c = '\x27' then more depth (some c)
    else if c = closer then (if depth = 0 then some ([], cs) else more (depth - 1) none)
    else if c = opener then more (depth + 1) none
    else more depth none

/-- The alteration that is written behind the name of a parameter. -/
def alteration? : List Char → Option Alteration
  | [] => some .plain
  | ':' :: '-' :: w => some (.default true w)
  | '-' :: w => some (.default false w)
  | ':' :: '=' :: w => some (.assign true w)
  | '=' :: w => some (.assign false w)
  | ':' :: '+' :: w => some (.alternative true w)
  | '+' :: w => some (.alternative false w)
  | ':' :: '?' :: w => some (.required true w)
  | '?' :: w => some (.required false w)
  | '#' :: '#' :: w => some (.dropStart true w)
  | '#' :: w => some (.dropStart false w)
  | '%' :: '%' :: w => some (.dropEnd true w)
  | '%' :: w => some (.dropEnd false w)
  | _ => none

/-- Whether a character is the name of a parameter by itself. -/
def isSpecial (c : Char) : Bool :=
  ['@', '*', '#', '?', '$', '!', '-'].contains c || c.isDigit

def braced? (quoted : Bool) (body : List Char) : Option Piece :=
  match body with
  | [] => none
  | c :: cs =>
    if c = '#' && !cs.isEmpty then
      some (.parameter (String.ofList cs) .length quoted)
    else
      let (name, rest) :=
        if isNameStart c then (body.takeWhile isNameChar, body.dropWhile isNameChar)
        else if c.isDigit then (body.takeWhile Char.isDigit, body.dropWhile Char.isDigit)
        else if isSpecial c then ([c], cs) else ([], body)
      if name.isEmpty then none
      else (alteration? rest).map fun a => .parameter (String.ofList name) a quoted

/-- What is written between `$(` and its closing parenthesis: an expression if it is in parentheses
itself, or else commands. -/
def substitution (quoted : Bool) (body : List Char) : Piece :=
  match body with
  | '(' :: cs =>
    if cs.getLast? = some ')' then .number cs.dropLast quoted else .output body quoted
  | _ => .output body quoted

/-- The piece that follows a dollar sign, and the text behind it. -/
def dollar? (quoted : Bool) (cs : List Char) : Option (Piece × List Char) :=
  match cs with
  | '(' :: rest => (enclosed '(' ')' 0 none rest).map fun (body, rest) =>
      (substitution quoted body, rest)
  | '\x7b' :: rest =>
    match enclosed '\x7b' '\x7d' 0 none rest with
    | some (body, rest) => (braced? quoted body).map (·, rest)
    | none => none
  | c :: rest =>
    if isNameStart c then
      some (.parameter (String.ofList (cs.takeWhile isNameChar)) .plain quoted,
        cs.dropWhile isNameChar)
    else if isSpecial c then some (.parameter (String.ofList [c]) .plain quoted, rest)
    else some (.text ['$'] quoted, cs)
  | [] => some (.text ['$'] quoted, [])

/-- What a text is read as. -/
inductive Context where
  /-- A word among others. -/
  | word
  /-- A word up to the end of the text. -/
  | whole
  /-- The inside of double quotes. -/
  | double
  /-- Input that stands in the script. -/
  | here
  deriving DecidableEq, Repr

def Context.isBare : Context → Bool
  | word => true
  | whole => true
  | double => false
  | here => false

/-- Whether a backslash takes the meaning of a character inside double quotes. -/
def isEscapable (c : Char) : Bool :=
  ['$', '\x60', '"', '\\'].contains c

/-- The pieces at the start of a text and the text behind them; `fuel` bounds their number. -/
def pieces : (fuel : Nat) → Context → List Char → Option (Word × List Char)
  | 0, _, _ => none
  | _ + 1, ctx, [] => if ctx = .double then none else some ([], [])
  | fuel + 1, ctx, c :: cs =>
    let quoted := !ctx.isBare
    let char (c : Char) (quoted : Bool) (rest : List Char) : Option (Word × List Char) :=
      (pieces fuel ctx rest).map fun (w, rest) => (prepend c quoted w, rest)
    let behind (front : Word) (rest : List Char) : Option (Word × List Char) :=
      (pieces fuel ctx rest).map fun (w, rest) => (front ++ w, rest)
    if ctx = .word && isMeta c then some ([], c :: cs)
    else if ctx = .double && c = '"' then some ([], cs)
    else if c = '\\' then
      match cs with
      | [] => char '\\' true []
      | '\n' :: rest => pieces fuel ctx rest
      | d :: rest =>
        if ctx.isBare || isEscapable d then char d true rest else char '\\' true cs
    else if c = '\x27' && ctx.isBare then
      match cutAt '\x27' cs with
      | some (body, rest) => behind [.text body true] rest
      | none => none
    else if c = '"' && ctx.isBare then
      match pieces fuel .double cs with
      | some ([], rest) => behind [.text [] true] rest
      | some (inside, rest) => behind inside rest
      | none => none
    else if c = '\x60' then
      match cutAt '\x60' cs with
      | some (body, rest) => behind [.output body quoted] rest
      | none => none
    else if c = '$' then
      match dollar? quoted cs with
      | some (p, rest) => behind [p] rest
      | none => none
    else char c quoted cs

def wordOf (ctx : Context) (s : List Char) : Option Word :=
  (pieces (s.length + 1) ctx s).map (·.1)

/-! ## Input in the script -/

/-- The text of a word without its quotes. -/
def plainText (w : Word) : List Char :=
  w.flatMap fun
    | .text cs _ => cs
    | _ => []

def isQuotedText : Piece → Bool
  | .text _ quoted => quoted
  | _ => false

/-- The lines up to one that reads `stop`, and the lines behind that. -/
def linesUntil (stop : List Char) (strip : Bool) :
    List (List Char) → List (List Char) × List (List Char)
  | [] => ([], [])
  | line :: rest =>
    let line := if strip then line.dropWhile (· = '\t') else line
    if line = stop then ([], rest)
    else
      let (body, after) := linesUntil stop strip rest
      (line :: body, after)

def endLines (ls : List (List Char)) : List Char :=
  ls.flatMap (· ++ ['\n'])

/-- Reads the word that ends the input and the input itself, which starts on the next line. -/
def hereDocument? (descriptor : Nat) (strip : Bool) (cs : List Char) :
    Option (Token × List Char) :=
  match pieces (cs.length + 1) .word (cs.dropWhile (· = ' ')) with
  | none => none
  | some (stop, rest) =>
    let line := rest.takeWhile (· != '\n')
    let behind := (rest.dropWhile (· != '\n')).drop 1
    let (body, after) := linesUntil (plainText stop) strip (Text.lines behind)
    let text := endLines body
    let left := line ++ '\n' :: endLines after
    if stop.any isQuotedText then some (.here descriptor [.text text true], left)
    else (wordOf .here text).map fun w => (.here descriptor w, left)

/-! ## Tokens -/

/-- The redirection that an angle bracket starts, and the text behind it. -/
def redirect? (descriptor : Option Nat) : List Char → Option (Token × List Char)
  | '<' :: '<' :: '-' :: cs => hereDocument? (descriptor.getD 0) true cs
  | '<' :: '<' :: cs => hereDocument? (descriptor.getD 0) false cs
  | '<' :: '&' :: cs => some (.redirect (descriptor.getD 0) .duplicate, cs)
  | '<' :: cs => some (.redirect (descriptor.getD 0) .input, cs)
  | '>' :: '>' :: cs => some (.redirect (descriptor.getD 1) .append, cs)
  | '>' :: '&' :: cs => some (.redirect (descriptor.getD 1) .duplicate, cs)
  | '>' :: '|' :: cs => some (.redirect (descriptor.getD 1) .output, cs)
  | '>' :: cs => some (.redirect (descriptor.getD 1) .output, cs)
  | _ => none

/-- The operator at the start of a text, and the text behind it. -/
def operator? : List Char → Option (Token × List Char)
  | '\n' :: cs => some (.mark "\n", cs)
  | '&' :: '&' :: cs => some (.mark "&&", cs)
  | '&' :: cs => some (.mark "&", cs)
  | '|' :: '|' :: cs => some (.mark "||", cs)
  | '|' :: cs => some (.mark "|", cs)
  | ';' :: ';' :: cs => some (.mark ";;", cs)
  | ';' :: cs => some (.mark ";", cs)
  | '(' :: cs => some (.mark "(", cs)
  | ')' :: cs => some (.mark ")", cs)
  | _ => none

/-- The redirection with its descriptor, if the text starts with one. -/
def numberedRedirect? (cs : List Char) : Option (Option (Token × List Char)) :=
  let rest := cs.dropWhile Char.isDigit
  match rest with
  | c :: _ =>
    if c = '<' || c = '>' then
      let digits := cs.takeWhile Char.isDigit
      some (redirect? (if digits.isEmpty then none else (String.ofList digits).toNat?) rest)
    else none
  | [] => none

/-- The token at the start of a text, and the text behind it. -/
def token? (cs : List Char) : Option (Token × List Char) :=
  match numberedRedirect? cs with
  | some r => r
  | none =>
    match operator? cs with
    | some r => some r
    | none => (pieces (cs.length + 1) .word cs).map fun (w, rest) => (.word w, rest)

/-- The tokens of a text; `fuel` bounds their number. -/
def tokensFrom : (fuel : Nat) → List Char → List Token
  | 0, _ => [.bad]
  | _ + 1, [] => []
  | fuel + 1, c :: cs =>
    if c = ' ' || c = '\t' then tokensFrom fuel cs
    else if c = '#' then tokensFrom fuel (cs.dropWhile (· != '\n'))
    else if c = '\\' && cs.head? = some '\n' then tokensFrom fuel cs.tail
    else
      match token? (c :: cs) with
      | some (t, rest) => t :: tokensFrom fuel rest
      | none => [.bad]

def tokens (script : List Char) : List Token :=
  tokensFrom (2 * script.length + 2) script

end BuildPlan.Shell
