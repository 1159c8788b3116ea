import BuildPlan.Text.Hex
import BuildPlan.Text.Numeral

/-!
# Reading JSON

A strict reader: blanks are the four of the grammar, numerals have no leading zero, a text holds no
raw control character, and an escape of a surrogate counts only together with its partner. Members
of an object keep their order, and a name may come twice.
-/

namespace BuildPlan

/-- A JSON value. Of a number with a fraction or an exponent only its kind is kept. -/
inductive Json where
  | null
  | bool (value : Bool)
  | integer (value : Int)
  | real
  | string (text : String)
  | array (items : List Json)
  | object (members : List (String × Json))

namespace Json

def isBlank (c : Char) : Bool :=
  c == ' ' || c == '\t' || c == '\n' || c == '\r'

def skipBlanks (s : List Char) : List Char :=
  s.dropWhile isBlank

/-! ## Texts -/

/-- The value of four hexadecimal digits. -/
def unit? (a b c d : Char) : Option Nat := do
  let digits ← [a, b, c, d].mapM Text.hexDigitValue?
  pure (digits.foldl (fun n digit => n * 16 + digit) 0)

/-- The character that an escape by one letter stands for. -/
def letterEscape? : Char → Option Char
  | '"' => some '"'
  | '\\' => some '\\'
  | '/' => some '/'
  | 'b' => some '\x08'
  | 'f' => some '\x0c'
  | 'n' => some '\n'
  | 'r' => some '\r'
  | 't' => some '\t'
  | _ => none

/-- A code unit that has to be followed by another one. -/
def isHighSurrogate (n : Nat) : Bool := 0xD800 ≤ n && n < 0xDC00

/-- A code unit that has to follow another one. -/
def isLowSurrogate (n : Nat) : Bool := 0xDC00 ≤ n && n < 0xE000

/-- Reads a text behind its opening quote, and returns it with what follows its closing quote. -/
def readText : List Char → Option (List Char × List Char)
  | [] => none
  | '"' :: rest => some ([], rest)
  | '\\' :: 'u' :: a :: b :: c :: d :: rest =>
    match unit? a b c d with
    | none => none
    | some n =>
      if isHighSurrogate n then
        match rest with
        | '\\' :: 'u' :: a' :: b' :: c' :: d' :: rest' =>
          match unit? a' b' c' d' with
          | none => none
          | some m =>
            if isLowSurrogate m then
              (readText rest').map fun r =>
                (Char.ofNat (0x10000 + (n - 0xD800) * 0x400 + (m - 0xDC00)) :: r.1, r.2)
            else none
        | _ => none
      else if isLowSurrogate n then none
      else (readText rest).map fun r => (Char.ofNat n :: r.1, r.2)
  | '\\' :: c :: rest =>
    match letterEscape? c with
    | none => none
    | some e => (readText rest).map fun r => (e :: r.1, r.2)
  | c :: rest =>
    if c = '\\' || c.toNat < 0x20 then none
    else (readText rest).map fun r => (c :: r.1, r.2)

/-! ## Numbers -/

/-- The longest run of digits at the front, and what follows. -/
def spanDigits (s : List Char) : List Char × List Char :=
  (s.takeWhile Char.isDigit, s.dropWhile Char.isDigit)

/-- Drops a fraction, if one is there; none where a point lacks its digits. -/
def skipFraction? : List Char → Option (Bool × List Char)
  | '.' :: rest =>
    match spanDigits rest with
    | ([], _) => none
    | (_ :: _, rest) => some (true, rest)
  | rest => some (false, rest)

/-- The text behind the sign of an exponent. -/
def skipSign : List Char → List Char
  | '+' :: rest => rest
  | '-' :: rest => rest
  | rest => rest

/-- Drops an exponent, if one is there; none where it lacks its digits. -/
def skipExponent? : List Char → Option (Bool × List Char)
  | c :: rest =>
    if c = 'e' || c = 'E' then
      match spanDigits (skipSign rest) with
      | ([], _) => none
      | (_ :: _, rest) => some (true, rest)
    else some (false, c :: rest)
  | [] => some (false, [])

def readMagnitude (negative : Bool) (s : List Char) : Option (Json × List Char) :=
  match spanDigits s with
  | ([], _) => none
  | ('0' :: _ :: _, _) => none
  | (digits, rest) => do
    let n ← Text.digits? digits
    let (fraction, rest) ← skipFraction? rest
    let (exponent, rest) ← skipExponent? rest
    if fraction || exponent then pure (real, rest)
    else pure (integer (if negative then -Int.ofNat n else Int.ofNat n), rest)

def readNumber : List Char → Option (Json × List Char)
  | '-' :: rest => readMagnitude true rest
  | s => readMagnitude false s

/-! ## Values -/

mutual

/-- Reads a value that starts at the front of the text. -/
def readValue : (fuel : Nat) → List Char → Option (Json × List Char)
  | 0, _ => none
  | fuel + 1, s =>
    match s with
    | '"' :: rest => (readText rest).map fun r => (string (String.ofList r.1), r.2)
    | '\x7b' :: rest =>
      match skipBlanks rest with
      | '\x7d' :: rest => some (object [], rest)
      | rest => (readMembers fuel rest).map fun r => (object r.1, r.2)
    | '[' :: rest =>
      match skipBlanks rest with
      | ']' :: rest => some (array [], rest)
      | rest => (readItems fuel rest).map fun r => (array r.1, r.2)
    | 'n' :: 'u' :: 'l' :: 'l' :: rest => some (null, rest)
    | 't' :: 'r' :: 'u' :: 'e' :: rest => some (bool true, rest)
    | 'f' :: 'a' :: 'l' :: 's' :: 'e' :: rest => some (bool false, rest)
    | s => readNumber s

/-- Reads the items of an array from the first one on, and its closing bracket. -/
def readItems : (fuel : Nat) → List Char → Option (List Json × List Char)
  | 0, _ => none
  | fuel + 1, s =>
    match readValue fuel s with
    | none => none
    | some (item, rest) =>
      match skipBlanks rest with
      | ']' :: rest => some ([item], rest)
      | ',' :: rest => (readItems fuel (skipBlanks rest)).map fun r => (item :: r.1, r.2)
      | _ => none

/-- Reads the members of an object from the first one on, and its closing brace. -/
def readMembers : (fuel : Nat) → List Char → Option (List (String × Json) × List Char)
  | 0, _ => none
  | fuel + 1, s =>
    match s with
    | '"' :: rest =>
      match readText rest with
      | none => none
      | some (name, rest) =>
        match skipBlanks rest with
        | ':' :: rest =>
          match readValue fuel (skipBlanks rest) with
          | none => none
          | some (value, rest) =>
            match skipBlanks rest with
            | '\x7d' :: rest => some ([(String.ofList name, value)], rest)
            | ',' :: rest =>
              (readMembers fuel (skipBlanks rest)).map fun r =>
                ((String.ofList name, value) :: r.1, r.2)
            | _ => none
        | _ => none
    | _ => none

end

/-- The value that a text holds, with blanks around it and nothing else. -/
def parse? (s : String) : Option Json :=
  match readValue (2 * s.length + 2) (skipBlanks s.toList) with
  | some (value, rest) => if skipBlanks rest = [] then some value else none
  | none => none

/-- The value of the last member with the given name, read by `read?`; none where a member of that
name cannot be read. -/
def member? {α : Type} (read? : Json → Option α) (name : String)
    (members : List (String × Json)) : Option α :=
  (((members.filter (·.1 == name)).map (·.2)).mapM read?).bind List.getLast?

end Json

end BuildPlan
