/-!
# Shell commands

The language of test scripts. A word is kept as the pieces it is written with, because quoting
decides later which of them are split and which are patterns; the text of a substitution is kept as
it is and only read when it is reached.
-/

namespace BuildPlan.Shell

/-- What becomes of the value of a parameter. With `empty` an empty value counts as none. -/
inductive Alteration where
  | plain
  | length
  /-- The word in place of no value. -/
  | default (empty : Bool) (word : List Char)
  /-- The same, and the parameter keeps it. -/
  | assign (empty : Bool) (word : List Char)
  /-- The word in place of a value. -/
  | alternative (empty : Bool) (word : List Char)
  /-- No value is an error. -/
  | required (empty : Bool) (word : List Char)
  /-- Without the shortest or longest start that fits the pattern. -/
  | dropStart (longest : Bool) (pattern : List Char)
  /-- Without the shortest or longest end that fits the pattern. -/
  | dropEnd (longest : Bool) (pattern : List Char)
  deriving DecidableEq, Repr

/-- A piece of a word. -/
inductive Piece where
  | text (chars : List Char) (quoted : Bool)
  | parameter (name : String) (alteration : Alteration) (quoted : Bool)
  /-- The output of commands. -/
  | output (source : List Char) (quoted : Bool)
  /-- The value of an arithmetic expression. -/
  | number (source : List Char) (quoted : Bool)
  deriving DecidableEq, Repr

abbrev Word := List Piece

/-- What a redirection does. -/
inductive Redirect where
  | input
  | output
  | append
  | duplicate
  /-- The target itself is the input. -/
  | here
  deriving DecidableEq, Repr

/-- A redirection of a descriptor. -/
structure Redirection where
  descriptor : Nat
  action : Redirect
  target : Word
  deriving DecidableEq, Repr

/-- A command. -/
inductive Command where
  | skip
  | simple (assignments : List (String × Word)) (words : List Word)
      (redirections : List Redirection)
  | redirected (body : Command) (redirections : List Redirection)
  | inOrder (first second : Command)
  | both (first second : Command)
  | either (first second : Command)
  | negated (body : Command)
  | piped (source sink : Command)
  | conditional (test yes no : Command)
  | loop (untilTrue : Bool) (test body : Command)
  /-- Without words it runs over the arguments of the script. -/
  | each (name : String) (words : Option (List Word)) (body : Command)
  | choice (word : Word) (arms : List (List Word × Command))
  /-- In a shell of its own. -/
  | apart (body : Command)
  | define (name : String) (body : Command)

end BuildPlan.Shell
