/-!
# Lines and pieces

A text is cut after each line feed: the pieces concatenate to the text, and only the last may lack
its line feed. A line is a piece without its ending, which is a line feed or a carriage return
followed by a line feed; a carriage return that no line feed follows belongs to the line.
-/

namespace BuildPlan.Text

/-- The text cut after each line feed. No piece is empty. -/
def pieces : List Char → List (List Char)
  | [] => []
  | c :: cs =>
    if c = '\n' then [c] :: pieces cs
    else
      match pieces cs with
      | [] => [[c]]
      | p :: ps => (c :: p) :: ps

/-- A text without its last character, if that is the one given. -/
def stripEnd? (last : Char) : List Char → Option (List Char)
  | [] => none
  | c :: cs =>
    match cs with
    | [] => if c = last then some [] else none
    | _ :: _ => (stripEnd? last cs).map (c :: ·)

def lineOfPiece (piece : List Char) : List Char :=
  match stripEnd? '\n' piece with
  | none => piece
  | some text => (stripEnd? '\r' text).getD text

/-- The lines of a text, without their endings. -/
def lines (s : List Char) : List (List Char) :=
  (pieces s).map lineOfPiece

end BuildPlan.Text
