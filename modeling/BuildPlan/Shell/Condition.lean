import BuildPlan.Shell.State
import BuildPlan.Text.Blank
import BuildPlan.Text.Numeral

/-!
# Conditions

What `test` decides from its words: whether files are there, how texts and numbers compare, and
combinations of these. Words that form no condition are an error.
-/

namespace BuildPlan.Shell

/-- The number that a word of a condition stands for. -/
def conditionNumber? (s : String) : Option Int :=
  Text.parseInt? (Text.trim s.toList)

def itemAt? (s : State) (path : String) : Option Item :=
  match s.tree.lookup path with
  | .ok (_, item) => some item
  | .error _ => none

def isFileWith (test : Bytes → Bool → Bool) : Option Item → Bool
  | some (.file data executable) => test data executable
  | _ => false

def unaryCondition? (s : State) (op word : String) : Option Bool :=
  let item := itemAt? s word
  match op with
  | "-n" => some (!word.isEmpty)
  | "-z" => some word.isEmpty
  | "-e" => some item.isSome
  | "-r" => some item.isSome
  | "-w" => some item.isSome
  | "-f" => some (isFileWith (fun _ _ => true) item)
  | "-d" => some (item == some .directory)
  | "-s" => some (item == some .directory || isFileWith (fun data _ => !data.isEmpty) item)
  | "-x" => some (item == some .directory || isFileWith (fun _ executable => executable) item)
  | "-h" => some false
  | "-L" => some false
  | "-t" => some false
  | _ => none

def binaryCondition? (op a b : String) : Option Bool :=
  let numbers (test : Int → Int → Bool) : Option Bool :=
    match conditionNumber? a, conditionNumber? b with
    | some m, some n => some (test m n)
    | _, _ => none
  match op with
  | "=" => some (a == b)
  | "!=" => some (a != b)
  | "<" => some (a < b)
  | ">" => some (b < a)
  | "-eq" => numbers fun m n => m == n
  | "-ne" => numbers fun m n => m != n
  | "-lt" => numbers fun m n => m < n
  | "-le" => numbers fun m n => m ≤ n
  | "-gt" => numbers fun m n => n < m
  | "-ge" => numbers fun m n => n ≤ m
  | _ => none

/-- Whether a word is an operator between two others. -/
def isBinary (op : String) : Bool :=
  ["=", "!=", "<", ">", "-eq", "-ne", "-lt", "-le", "-gt", "-ge"].contains op

/-- The words before an operator, and those behind it. -/
def splitAt (op : String) : List String → Option (List String × List String)
  | [] => none
  | w :: ws =>
    if w = op then some ([], ws) else (splitAt op ws).map fun (a, b) => (w :: a, b)

/-- What a condition decides; `fuel` bounds how it nests. -/
def conditionFrom? (s : State) : (fuel : Nat) → List String → Option Bool
  | 0, _ => none
  | fuel + 1, words =>
    match words with
    | [] => some false
    | [w] => some (!w.isEmpty)
    | [op, w] =>
      if op = "!" then some w.isEmpty else unaryCondition? s op w
    | [a, op, b] =>
      if isBinary op then binaryCondition? op a b
      else combined fuel words
    | words => combined fuel words
where
  /-- A condition that is made up of others. -/
  combined (fuel : Nat) (words : List String) : Option Bool :=
    match splitAt "-o" words with
    | some (a, b) =>
      match conditionFrom? s fuel a, conditionFrom? s fuel b with
      | some p, some q => some (p || q)
      | _, _ => none
    | none =>
      match splitAt "-a" words with
      | some (a, b) =>
        match conditionFrom? s fuel a, conditionFrom? s fuel b with
        | some p, some q => some (p && q)
        | _, _ => none
      | none =>
        match words with
        | "!" :: rest => (conditionFrom? s fuel rest).map (!·)
        | "(" :: rest =>
          if rest.getLast? = some ")" then conditionFrom? s fuel rest.dropLast else none
        | _ => none

def condition? (s : State) (words : List String) : Option Bool :=
  conditionFrom? s (2 * words.length + 2) words

end BuildPlan.Shell
