import BuildPlan.Text.Line
import BuildPlan.Text.Split

/-!
# Line differences

Two texts are compared line by line along a longest common subsequence of their lines. A common line
is marked by two spaces, a line of the expected text alone by `- ` and a line of the actual text
alone by `+ `. Where either kind could come next without making the common part shorter, the line of
the actual text does.
-/

namespace BuildPlan.TestRun

/-- A line of a difference. -/
inductive DiffLine where
  | common (line : List Char)
  | missing (line : List Char)
  | extra (line : List Char)
  deriving DecidableEq, Repr

def DiffLine.text : DiffLine → String
  | common line => "  " ++ String.ofList line
  | missing line => "- " ++ String.ofList line
  | extra line => "+ " ++ String.ofList line

/-- The row of the table for one more line `a` in front: from the row `below` without it, the entry
for every tail of the other lines, the whole first. An entry is the length of a longest common
subsequence. -/
def lcsRow (a : List Char) : (other : List (List Char)) → (below : List Nat) → List Nat
  | [], _ => [0]
  | b :: bs, below =>
    let row := lcsRow a bs below.tail
    let entry :=
      if a = b then below.tail.headD 0 + 1 else max (below.headD 0) (row.headD 0)
    entry :: row

/-- The rows of the table for every tail of `old`, the whole first. -/
def lcsTable (old new : List (List Char)) : List (List Nat) :=
  match old with
  | [] => [List.replicate (new.length + 1) 0]
  | a :: rest =>
    let table := lcsTable rest new
    lcsRow a new (table.headD []) :: table

/-- The difference of two lists of lines along the table of their tails. -/
def walk (old new : List (List Char)) (table : List (List Nat)) : List DiffLine :=
  match old, new with
  | [], [] => []
  | [], b :: bs => .extra b :: walk [] bs table
  | a :: as, [] => .missing a :: walk as [] table.tail
  | a :: as, b :: bs =>
    if a = b then .common a :: walk as bs (table.tail.map List.tail)
    else if (table.tail.headD []).headD 0 ≤ (table.headD []).tail.headD 0 then
      .extra b :: walk (a :: as) bs (table.map List.tail)
    else .missing a :: walk as (b :: bs) table.tail
termination_by old.length + new.length

def diffLines (old new : List (List Char)) : List DiffLine :=
  walk old new (lcsTable old new)

/-- The difference of two texts, a line for a line. -/
def difference (expected actual : String) : String :=
  Text.unlines ((diffLines (Text.lines expected.toList) (Text.lines actual.toList)).map
    DiffLine.text)

end BuildPlan.TestRun
