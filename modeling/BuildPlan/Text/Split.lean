/-!
# Splitting and joining

A separator cuts a text into one more part than it occurs, so that the parts joined by it give the
text again.
-/

namespace BuildPlan.Text

/-- The parts between the occurrences of a separator; never the empty list. -/
def split (sep : Char) : List Char → List (List Char)
  | [] => [[]]
  | c :: cs =>
    if c = sep then [] :: split sep cs
    else
      match split sep cs with
      | [] => [[c]]
      | p :: ps => (c :: p) :: ps

/-- What precedes the last occurrence of a character, and what follows it. -/
def splitLast (sep : Char) : List Char → Option (List Char × List Char)
  | [] => none
  | c :: cs =>
    match splitLast sep cs with
    | some (before, after) => some (c :: before, after)
    | none => if c = sep then some ([], cs) else none

/-- The items with a separator between each two. -/
def joinWith (sep : String) : List String → String
  | [] => ""
  | [s] => s
  | s :: rest => s ++ sep ++ joinWith sep rest

def unlines : List String → String
  | [] => ""
  | s :: rest => s ++ "\n" ++ unlines rest

end BuildPlan.Text
