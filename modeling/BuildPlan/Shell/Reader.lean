import BuildPlan.Shell.Token

/-!
# Reading commands

Tokens as commands. A script is read one line at a time, where a line goes on as long as a command
is open, so that a later mistake does not keep earlier lines from running. `fuel` bounds how deep
commands nest.
-/

namespace BuildPlan.Shell

/-! ## Words and keywords -/

/-- The text of a word that is written without quotes and substitutions. -/
def bareText? : Word → Option String
  | [.text cs false] => some (String.ofList cs)
  | _ => none

/-- The text of a token that may be a keyword. -/
def keyword? : List Token → Option String
  | .word w :: _ => bareText? w
  | _ => none

/-- The keywords that end a list of commands. -/
def closers : List String := ["then", "else", "elif", "fi", "do", "done", "esac", "\x7d"]

def isClosed (ts : List Token) : Bool :=
  match ts with
  | [] => true
  | .mark ")" :: _ => true
  | .mark ";;" :: _ => true
  | _ => (keyword? ts).any closers.contains

/-- The tokens without the ends of lines in front. -/
def skipLines (ts : List Token) : List Token :=
  ts.dropWhile (· = .mark "\n")

def after? (keyword : String) (ts : List Token) : Option (List Token) :=
  if keyword? ts = some keyword then some ts.tail else none

def afterMark? (mark : String) : List Token → Option (List Token)
  | .mark m :: rest => if m = mark then some rest else none
  | _ => none

/-! ## Simple commands -/

def assignment? : Word → Option (String × Word)
  | .text cs false :: rest =>
    let name := cs.takeWhile isNameChar
    match cs.head?, cs.dropWhile isNameChar with
    | some c, '=' :: value =>
      if isNameStart c then
        some (String.ofList name,
          if value.isEmpty then rest else .text value false :: rest)
      else none
    | _, _ => none
  | _ => none

/-- The redirection at the start of the tokens. -/
def redirection? : List Token → Option (Redirection × List Token)
  | .redirect descriptor action :: .word w :: rest => some (⟨descriptor, action, w⟩, rest)
  | .here descriptor body :: rest => some (⟨descriptor, .here, body⟩, rest)
  | _ => none

/-- The redirections at the start of the tokens. -/
def redirections : (fuel : Nat) → List Token → List Redirection × List Token
  | 0, ts => ([], ts)
  | fuel + 1, ts =>
    match redirection? ts with
    | some (r, rest) =>
      let (rs, rest) := redirections fuel rest
      (r :: rs, rest)
    | none => ([], ts)

/-- Reads a simple command behind what it has already. -/
def simpleFrom : (fuel : Nat) → List (String × Word) → List Word → List Redirection →
    List Token → Command × List Token
  | 0, as, ws, rs, ts => (.simple as ws rs, ts)
  | fuel + 1, as, ws, rs, ts =>
    match redirection? ts with
    | some (r, rest) => simpleFrom fuel as ws (rs ++ [r]) rest
    | none =>
      match ts with
      | .word w :: rest =>
        match assignment? w, ws with
        | some a, [] => simpleFrom fuel (as ++ [a]) ws rs rest
        | _, _ => simpleFrom fuel as (ws ++ [w]) rs rest
      | _ => (.simple as ws rs, ts)

/-- Reads a simple command; there has to be something of one. -/
def simple? (ts : List Token) : Option (Command × List Token) :=
  match simpleFrom ts.length [] [] [] ts with
  | (.simple [] [] [], _) => none
  | r => some r

/-- A command with the redirections that follow it. -/
def withRedirections (c : Command) (ts : List Token) : Command × List Token :=
  match redirections ts.length ts with
  | ([], rest) => (c, rest)
  | (rs, rest) => (.redirected c rs, rest)

/-! ## Parts of compound commands -/

/-- The words up to the end of a `for` line. -/
def wordsUntilEnd : List Token → List Word × List Token
  | .word w :: rest =>
    let (ws, rest) := wordsUntilEnd rest
    (w :: ws, rest)
  | ts => ([], ts)

/-- The words that a `for` command runs over, if it gives any. -/
def eachWords (ts : List Token) : Option (List Word) × List Token :=
  match after? "in" (skipLines ts) with
  | some rest =>
    let (ws, rest) := wordsUntilEnd rest
    (some ws, rest)
  | none => (none, ts)

/-- The tokens behind the end of a command, if there is one. -/
def skipEnd (ts : List Token) : List Token :=
  skipLines ((afterMark? ";" ts).getD ts)

/-- The patterns of an arm and what follows their parenthesis. -/
def patterns? : List Token → Option (List Word × List Token)
  | .word w :: .mark "|" :: rest => (patterns? rest).map fun (ws, rest) => (w :: ws, rest)
  | .word w :: .mark ")" :: rest => some ([w], rest)
  | _ => none

/-! ## Commands -/

mutual

/-- Reads commands up to where a list of them ends. -/
def list? : (fuel : Nat) → List Token → Option (Command × List Token)
  | 0, _ => none
  | fuel + 1, ts =>
    let ts := skipLines ts
    if isClosed ts then some (.skip, ts)
    else do
      let (c, ts) ← chain? fuel ts
      match ts with
      | .mark m :: rest =>
        if m = ";" || m = "&" || m = "\n" then do
          let (d, ts) ← list? fuel rest
          return (.inOrder c d, ts)
        else return (c, ts)
      | _ => return (c, ts)

/-- Reads pipelines joined by `&&` and `||`. -/
def chain? : (fuel : Nat) → List Token → Option (Command × List Token)
  | 0, _ => none
  | fuel + 1, ts => do
    let (c, ts) ← pipeline? fuel ts
    chainFrom? fuel c ts

/-- Reads on behind the first of such pipelines. -/
def chainFrom? : (fuel : Nat) → Command → List Token → Option (Command × List Token)
  | 0, _, _ => none
  | fuel + 1, c, ts =>
    match ts with
    | .mark "&&" :: rest => do
      let (d, ts) ← pipeline? fuel (skipLines rest)
      chainFrom? fuel (.both c d) ts
    | .mark "||" :: rest => do
      let (d, ts) ← pipeline? fuel (skipLines rest)
      chainFrom? fuel (.either c d) ts
    | _ => some (c, ts)

def pipeline? : (fuel : Nat) → List Token → Option (Command × List Token)
  | 0, _ => none
  | fuel + 1, ts =>
    match after? "!" ts with
    | some rest => do
      let (c, ts) ← pipeline? fuel rest
      return (.negated c, ts)
    | none => do
      let (c, ts) ← command? fuel ts
      match ts with
      | .mark "|" :: rest => do
        let (d, ts) ← pipeline? fuel (skipLines rest)
        return (.piped c d, ts)
      | _ => return (c, ts)

def command? : (fuel : Nat) → List Token → Option (Command × List Token)
  | 0, _ => none
  | fuel + 1, ts =>
    match ts with
    | .mark "(" :: rest => do
      let (c, ts) ← list? fuel rest
      let ts ← afterMark? ")" ts
      return withRedirections (.apart c) ts
    | .word w :: .mark "(" :: .mark ")" :: rest => do
      let name ← bareText? w
      let (c, ts) ← command? fuel (skipLines rest)
      return (.define name c, ts)
    | _ =>
      match keyword? ts with
      | some "if" => do
        let (c, ts) ← conditional? fuel ts.tail
        return withRedirections c ts
      | some "while" => loop? fuel false ts.tail
      | some "until" => loop? fuel true ts.tail
      | some "for" => each? fuel ts.tail
      | some "case" => do
        let (c, ts) ← choice? fuel ts.tail
        return withRedirections c ts
      | some "\x7b" => do
        let (c, ts) ← list? fuel ts.tail
        let ts ← after? "\x7d" ts
        return withRedirections c ts
      | some k => if closers.contains k || k = "in" then none else simple? ts
      | none => simple? ts

/-- Reads a conditional behind its first keyword. -/
def conditional? : (fuel : Nat) → List Token → Option (Command × List Token)
  | 0, _ => none
  | fuel + 1, ts => do
    let (test, ts) ← list? fuel ts
    let ts ← after? "then" ts
    let (yes, ts) ← list? fuel ts
    match keyword? ts with
    | some "elif" => do
      let (no, ts) ← conditional? fuel ts.tail
      return (.conditional test yes no, ts)
    | some "else" => do
      let (no, ts) ← list? fuel ts.tail
      let ts ← after? "fi" ts
      return (.conditional test yes no, ts)
    | some "fi" => return (.conditional test yes .skip, ts.tail)
    | _ => none

def body? : (fuel : Nat) → List Token → Option (Command × List Token)
  | 0, _ => none
  | fuel + 1, ts => do
    let ts ← after? "do" ts
    let (body, ts) ← list? fuel ts
    let ts ← after? "done" ts
    return (body, ts)

/-- Reads a loop behind its first keyword. -/
def loop? : (fuel : Nat) → (untilTrue : Bool) → List Token → Option (Command × List Token)
  | 0, _, _ => none
  | fuel + 1, untilTrue, ts => do
    let (test, ts) ← list? fuel ts
    let (body, ts) ← body? fuel ts
    return withRedirections (.loop untilTrue test body) ts

/-- Reads a `for` command behind its first keyword. -/
def each? : (fuel : Nat) → List Token → Option (Command × List Token)
  | 0, _ => none
  | fuel + 1, ts => do
    let name ← keyword? ts
    let (words, ts) := eachWords ts.tail
    let (body, ts) ← body? fuel (skipEnd ts)
    return withRedirections (.each name words body) ts

/-- Reads a `case` command behind its first keyword. -/
def choice? : (fuel : Nat) → List Token → Option (Command × List Token)
  | 0, _ => none
  | fuel + 1, ts =>
    match ts with
    | .word w :: rest => do
      let ts ← after? "in" (skipLines rest)
      let (arms, ts) ← arms? fuel ts
      return (.choice w arms, ts)
    | _ => none

/-- Reads the arms of a `case` command and its end. -/
def arms? : (fuel : Nat) → List Token → Option (List (List Word × Command) × List Token)
  | 0, _ => none
  | fuel + 1, ts =>
    let ts := skipLines ts
    match after? "esac" ts with
    | some rest => some ([], rest)
    | none => do
      let (patterns, ts) ← patterns? ((afterMark? "(" ts).getD ts)
      let (body, ts) ← list? fuel ts
      match afterMark? ";;" ts with
      | some rest => do
        let (arms, ts) ← arms? fuel rest
        return ((patterns, body) :: arms, ts)
      | none => do
        let rest ← after? "esac" ts
        return ([(patterns, body)], rest)

end

def lineFrom? (depth : Nat) : (fuel : Nat) → List Token → Option (Command × List Token)
  | 0, _ => none
  | fuel + 1, ts => do
    let (c, ts) ← chain? depth ts
    match ts with
    | [] => return (c, [])
    | .mark m :: rest =>
      if m = "\n" then return (c, rest)
      else if m = ";" || m = "&" then
        match rest with
        | [] => return (c, [])
        | .mark "\n" :: rest => return (c, rest)
        | _ => do
          let (d, ts) ← lineFrom? depth fuel rest
          return (.inOrder c d, ts)
      else none
    | _ => none

def line? (ts : List Token) : Option (Command × List Token) :=
  lineFrom? (8 * ts.length + 8) (ts.length + 1) ts

end BuildPlan.Shell
