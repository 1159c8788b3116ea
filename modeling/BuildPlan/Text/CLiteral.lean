import BuildPlan.Text.Utf8

/-!
# C literals

Texts as C string literals and as initialisers of byte arrays. A string literal keeps printable
ASCII and writes every other byte, quotes and backslashes included, as an octal escape of three
digits, which no following character can extend. An initialiser is a list of character constants,
sixteen on a line, ended by a NUL.
-/

namespace BuildPlan.Text

def octalDigit (n : Nat) : Char :=
  Char.ofNat (48 + n)

/-- A byte inside a string literal. -/
def cByte (b : UInt8) : List Char :=
  if 0x20 ≤ b ∧ b < 0x7F ∧ b ≠ 0x22 ∧ b ≠ 0x5C then [Char.ofNat b.toNat]
  else ['\\', octalDigit (b.toNat / 64), octalDigit (b.toNat / 8 % 8), octalDigit (b.toNat % 8)]

def cLiteral (s : String) : String :=
  String.ofList ('"' :: (toUtf8 s).flatMap cByte ++ ['"'])

/-- A list cut into runs of `more + 1` elements; only the last run may be shorter. -/
def runs {α : Type} (more : Nat) : List α → List (List α)
  | [] => []
  | x :: xs => (x :: xs.take more) :: runs more (xs.drop more)
termination_by xs => xs.length
decreasing_by simp only [List.length_drop, List.length_cons]; omega

/-- A byte as a character constant with the comma behind it. -/
def cByteConstant (b : UInt8) : List Char :=
  ['\x27', '\\', 'x'] ++ hexDigits b ++ ['\x27', ',']
where
  hexDigits (b : UInt8) : List Char :=
    [Nat.digitChar (b.toNat / 16), Nat.digitChar (b.toNat % 16)]

/-- The lines of a byte array that holds the UTF-8 bytes of a text and a NUL. -/
def cByteArray (indent name contents : String) : List String :=
  [indent ++ "static char " ++ name ++ "[] = \x7b"] ++
  (runs 15 (toUtf8 contents)).map (fun run =>
    indent ++ "  " ++ String.ofList (run.flatMap cByteConstant)) ++
  [indent ++ "  '\\0'", indent ++ "\x7d;"]

end BuildPlan.Text
