/-!
# Filling lines

Words are put on lines with one space between them. A line ends where the next word would pass the
width, so only a line of a single word can be longer than that.
-/

namespace BuildPlan.Text

/-- The lines of the words, the first of which goes on with what `line` holds already. -/
def wrapFrom (width : Nat) (line : List Char) : List (List Char) → List (List Char)
  | [] => if line.isEmpty then [] else [line]
  | word :: rest =>
    if line.isEmpty then wrapFrom width word rest
    else if width < line.length + 1 + word.length then line :: wrapFrom width word rest
    else wrapFrom width (line ++ ' ' :: word) rest

def wrap (width : Nat) (words : List (List Char)) : List (List Char) :=
  wrapFrom width [] words

end BuildPlan.Text
