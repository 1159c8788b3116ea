import BuildPlan.Text.Numeral

/-!
# Shell arithmetic

Integer expressions: numbers, variables, parentheses, signs, negation, and binary operators in
levels of precedence, each of which goes from left to right. Division goes toward zero.
-/

namespace BuildPlan.Shell

/-- A binary operator by its level of precedence, the loosest first. -/
def operatorsAt : Nat → List (List Char)
  | 0 => ["||".toList]
  | 1 => ["&&".toList]
  | 2 => ["==".toList, "!=".toList]
  | 3 => ["<=".toList, ">=".toList, "<".toList, ">".toList]
  | 4 => ["+".toList, "-".toList]
  | _ => ["*".toList, "/".toList, "%".toList]

def operatorLevels : Nat := 6

def truth (b : Bool) : Int :=
  if b then 1 else 0

/-- The value of a binary operator; none for a division by zero. -/
def applyOperator? (op : List Char) (a b : Int) : Option Int :=
  match String.ofList op with
  | "||" => some (truth (a != 0 || b != 0))
  | "&&" => some (truth (a != 0 && b != 0))
  | "==" => some (truth (a == b))
  | "!=" => some (truth (a != b))
  | "<=" => some (truth (a ≤ b))
  | ">=" => some (truth (b ≤ a))
  | "<" => some (truth (a < b))
  | ">" => some (truth (b < a))
  | "+" => some (a + b)
  | "-" => some (a - b)
  | "*" => some (a * b)
  | "/" => if b = 0 then none else some (a.tdiv b)
  | "%" => if b = 0 then none else some (a.tmod b)
  | _ => none

def skipBlanks (cs : List Char) : List Char :=
  cs.dropWhile fun c => c = ' ' || c = '\t' || c = '\n'

/-- The operator of a level at the start of a text, and what follows it. -/
def operatorAt? (level : Nat) (cs : List Char) : Option (List Char × List Char) :=
  ((operatorsAt level).find? (·.isPrefixOf cs)).map fun op => (op, cs.drop op.length)

mutual

/-- The value of an expression at and above a level, and what follows it. -/
def valueAt? (lookup : String → Int) : (fuel level : Nat) → List Char → Option (Int × List Char)
  | 0, _, _ => none
  | fuel + 1, level, cs =>
    if level < operatorLevels then do
      let (a, rest) ← valueAt? lookup fuel (level + 1) cs
      valueFrom? lookup fuel level a rest
    else operand? lookup fuel (skipBlanks cs)

/-- Goes on behind the first operand of a level. -/
def valueFrom? (lookup : String → Int) :
    (fuel level : Nat) → Int → List Char → Option (Int × List Char)
  | 0, _, _, _ => none
  | fuel + 1, level, a, cs =>
    match operatorAt? level (skipBlanks cs) with
    | none => some (a, cs)
    | some (op, rest) => do
      let (b, rest) ← valueAt? lookup fuel (level + 1) rest
      let c ← applyOperator? op a b
      valueFrom? lookup fuel level c rest

/-- The value of an operand, and what follows it. -/
def operand? (lookup : String → Int) : (fuel : Nat) → List Char → Option (Int × List Char)
  | 0, _ => none
  | fuel + 1, cs =>
    match cs with
    | '(' :: rest => do
      let (a, rest) ← valueAt? lookup fuel 0 rest
      match skipBlanks rest with
      | ')' :: rest => return (a, rest)
      | _ => none
    | '-' :: rest => do
      let (a, rest) ← operand? lookup fuel (skipBlanks rest)
      return (-a, rest)
    | '+' :: rest => operand? lookup fuel (skipBlanks rest)
    | '!' :: rest => do
      let (a, rest) ← operand? lookup fuel (skipBlanks rest)
      return (truth (a == 0), rest)
    | c :: _ =>
      if c.isDigit then
        (Text.digits? (cs.takeWhile Char.isDigit)).map fun n =>
          (Int.ofNat n, cs.dropWhile Char.isDigit)
      else if c.isAlpha || c = '_' then
        let isPart (c : Char) : Bool := c.isAlphanum || c = '_'
        some (lookup (String.ofList (cs.takeWhile isPart)), cs.dropWhile isPart)
      else none
    | [] => none

end

def arithmetic? (lookup : String → Int) (source : List Char) : Option Int :=
  if (skipBlanks source).isEmpty then some 0
  else
    match valueAt? lookup (16 * source.length + 16) 0 source with
    | some (n, rest) => if (skipBlanks rest).isEmpty then some n else none
    | none => none

end BuildPlan.Shell
