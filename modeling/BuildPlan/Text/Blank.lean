/-!
# Blank characters

Blank means the Unicode property `White_Space`: the ASCII blanks, NEL, the no-break space, the
spaces of the general punctuation block and the ideographic space. Zero-width characters are not
blank. `trim` removes blanks at both ends of a text and touches nothing between them.
-/

namespace BuildPlan.Text

/-- The characters with the Unicode property `White_Space`. -/
def isBlank (c : Char) : Bool :=
  let n := c.toNat
  (0x09 ≤ n && n ≤ 0x0D) || n == 0x20 || n == 0x85 || n == 0xA0 || n == 0x1680 ||
  (0x2000 ≤ n && n ≤ 0x200A) || n == 0x2028 || n == 0x2029 || n == 0x202F || n == 0x205F ||
  n == 0x3000

def trimStart (s : List Char) : List Char :=
  s.dropWhile isBlank

def trimEnd : List Char → List Char
  | [] => []
  | c :: cs =>
    match trimEnd cs with
    | [] => if isBlank c then [] else [c]
    | kept => c :: kept

/-- The text without its leading and trailing blanks. -/
def trim (s : List Char) : List Char :=
  trimEnd (trimStart s)

end BuildPlan.Text
