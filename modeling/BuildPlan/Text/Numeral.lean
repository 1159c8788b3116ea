/-!
# Decimal numerals

A numeral is one or more ASCII digits, leading zeros allowed, behind an optional `+`; a signed
numeral may have `-` instead. A value outside the range asked for is no numeral of that range.
-/

namespace BuildPlan.Text

/-- The value of one or more ASCII digits, read on from `acc`. -/
def digitsValue? (acc : Nat) : List Char → Option Nat
  | [] => some acc
  | c :: cs => if c.isDigit then digitsValue? (10 * acc + (c.toNat - '0'.toNat)) cs else none

/-- The value of a non-empty run of ASCII digits. -/
def digits? : List Char → Option Nat
  | [] => none
  | cs => digitsValue? 0 cs

def parseNat? (limit : Nat) (s : List Char) : Option Nat :=
  let digits := match s with
    | '+' :: cs => cs
    | cs => cs
  (digits? digits).filter (· < limit)

def parseInt? : List Char → Option Int
  | '+' :: cs => (digits? cs).map Int.ofNat
  | '-' :: cs => (digits? cs).map fun n => -Int.ofNat n
  | cs => (digits? cs).map Int.ofNat

/-- The integer as a 32-bit value, if it is in range. -/
def toInt32? (n : Int) : Option Int32 :=
  if -2147483648 ≤ n ∧ n ≤ 2147483647 then some (Int32.ofInt n) else none

def parseInt32? (s : List Char) : Option Int32 :=
  (parseInt? s).bind toInt32?

/-- The decimal numeral of an integer, with `-` in front of a negative one. -/
def showInt (n : Int) : String :=
  match n with
  | .ofNat m => Nat.repr m
  | .negSucc m => "-" ++ Nat.repr (m + 1)

end BuildPlan.Text
