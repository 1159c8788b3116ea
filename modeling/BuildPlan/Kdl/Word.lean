import BuildPlan.Kdl.Character
import BuildPlan.Text.Hex

/-!
# Bare words and numbers of KDL

A maximal run of word characters is a bare word or a number. It is a number when it starts with a
digit, behind a sign or not. A bare word is none of the reserved words and cannot be taken for a
number with its first digit missing.
-/

namespace BuildPlan.Kdl

def reserved : List String := ["true", "false", "null", "inf", "-inf", "nan"]

/-- A run without its sign. -/
def dropSign : List Char → List Char
  | '+' :: rest => rest
  | '-' :: rest => rest
  | rest => rest

def startsWithDigit : List Char → Bool
  | c :: _ => c.isDigit
  | [] => false

/-- Whether a run is to be read as a number. -/
def looksNumeric (run : List Char) : Bool :=
  startsWithDigit (dropSign run)

def isBareWord (run : List Char) : Bool :=
  !run.isEmpty && !looksNumeric run && !reserved.contains (String.ofList run) &&
  match dropSign run with
  | '.' :: rest => !startsWithDigit rest
  | _ => true

/-- What follows one or more digits and any underscores behind the first; none where there is no
digit. -/
def skipDigits? (isDigit : Char → Bool) : List Char → Option (List Char)
  | c :: rest => if isDigit c then some (rest.dropWhile fun d => isDigit d || d == '_') else none
  | [] => none

/-- The value of the digits in a run, underscores left out. -/
def digitsValue (base : Nat) (run : List Char) : Nat :=
  run.foldl (fun n c =>
    match Text.hexDigitValue? c with
    | some digit => n * base + digit
    | none => n) 0

/-- The greatest magnitude of an integer. -/
def integerLimit : Nat := 0x80000000000000000000000000000000

def isInteger (base : Nat) (isDigit : Char → Bool) (run : List Char) : Bool :=
  skipDigits? isDigit run == some [] && digitsValue base run < integerLimit

def isHexDigit (c : Char) : Bool :=
  (Text.hexDigitValue? c).isSome

/-- Whether what is left of a number is an exponent, or nothing. -/
def isExponent : List Char → Bool
  | [] => true
  | c :: rest =>
    (c == 'e' || c == 'E') && skipDigits? Char.isDigit (dropSign rest) == some []

/-- Whether what is left of a number is a fraction and an exponent, or one of them, or nothing. -/
def isFraction : List Char → Bool
  | '.' :: rest =>
    match skipDigits? Char.isDigit rest with
    | some rest => isExponent rest
    | none => false
  | rest => isExponent rest

def isNumber (run : List Char) : Bool :=
  match dropSign run with
  | '0' :: 'x' :: digits => isInteger 16 isHexDigit digits
  | '0' :: 'o' :: digits => isInteger 8 (fun c => '0' ≤ c && c ≤ '7') digits
  | '0' :: 'b' :: digits => isInteger 2 (fun c => c == '0' || c == '1') digits
  | digits =>
    match skipDigits? Char.isDigit digits with
    | none => false
    | some [] => digitsValue 10 digits < integerLimit
    | some rest => isFraction rest

end BuildPlan.Kdl
