/-!
# Bytes in hexadecimal

Writing uses lower-case digits, two for each byte. Reading also takes upper-case digits; it fails
on an odd number of bytes, and otherwise at the first byte that is no digit.
-/

namespace BuildPlan.Text

/-- The lower-case hexadecimal digit of a value below 16. -/
def hexDigit (n : Nat) : Char :=
  Char.ofNat (if n < 10 then 48 + n else 87 + n)

def hexByte (b : UInt8) : List Char :=
  [hexDigit (b.toNat / 16), hexDigit (b.toNat % 16)]

def toHex (bytes : List UInt8) : String :=
  String.ofList (bytes.flatMap hexByte)

def hexDigitValue? (c : Char) : Option Nat :=
  if c.isDigit then some (c.toNat - 48)
  else if 'a' ≤ c ∧ c ≤ 'f' then some (c.toNat - 87)
  else if 'A' ≤ c ∧ c ≤ 'F' then some (c.toNat - 55)
  else none

/-- The value of a hexadecimal digit, given as a byte. -/
def hexValue? (b : UInt8) : Option UInt8 :=
  (hexDigitValue? (Char.ofNat b.toNat)).map UInt8.ofNat

/-- Why a text is not bytes in hexadecimal. -/
inductive HexError where
  | oddLength
  | badDigit (byte : UInt8) (position : Nat)
  deriving DecidableEq, Repr

/-- Reads pairs of digits from `position` on. -/
def hexPairs (position : Nat) : List UInt8 → Except HexError (List UInt8)
  | [] => .ok []
  | [_] => .error .oddLength
  | hi :: lo :: rest =>
    match hexValue? hi, hexValue? lo with
    | none, _ => .error (.badDigit hi position)
    | some _, none => .error (.badDigit lo (position + 1))
    | some h, some l =>
      match hexPairs (position + 2) rest with
      | .ok bytes => .ok ((h * 16 + l) :: bytes)
      | .error e => .error e

/-- The bytes that a text stands for in hexadecimal. -/
def ofHex (digits : List UInt8) : Except HexError (List UInt8) :=
  if digits.length % 2 = 1 then .error .oddLength else hexPairs 0 digits

end BuildPlan.Text
