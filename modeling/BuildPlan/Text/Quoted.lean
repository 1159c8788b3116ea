import BuildPlan.Text.Printable

/-!
# Quoted texts in messages

A message shows a text between double quotes, or a character between single quotes. The quote that
encloses it, the backslash, line feed, carriage return, tab and NUL are escaped by a letter, and
every other character that would not show on its own by its code point.
-/

namespace BuildPlan.Text

/-- The hexadecimal numeral of a code point. -/
def codePoint (n : Nat) : List Char :=
  Nat.toDigits 16 n

/-- A character as it stands between two quote characters. -/
def quoteChar (quote c : Char) : List Char :=
  if c = quote ∨ c = '\\' then ['\\', c]
  else if c = '\n' then ['\\', 'n']
  else if c = '\r' then ['\\', 'r']
  else if c = '\t' then ['\\', 't']
  else if c = '\x00' then ['\\', '0']
  else if isPrintable c then [c]
  else ['\\', 'u', '\x7b'] ++ codePoint c.toNat ++ ['\x7d']

def quoted (s : String) : String :=
  String.ofList ('"' :: s.toList.flatMap (quoteChar '"') ++ ['"'])

def quotedChar (c : Char) : String :=
  String.ofList ('\x27' :: quoteChar '\x27' c ++ ['\x27'])

end BuildPlan.Text
