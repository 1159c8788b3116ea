/-!
# Searching and replacing

Occurrences are found from left to right and do not overlap: after a match the search goes on
behind it, so nothing that was inserted is looked at again. The empty pattern occurs before every
character and at the end.
-/

namespace BuildPlan.Text

/-- What follows `pat` in a text that starts with it. -/
def stripStart? : (pat s : List Char) → Option (List Char)
  | [], s => some s
  | _ :: _, [] => none
  | p :: ps, c :: cs => if p = c then stripStart? ps cs else none

def occursIn (pat : List Char) : List Char → Bool
  | [] => pat.isEmpty
  | c :: cs => pat.isPrefixOf (c :: cs) || occursIn pat cs

/-- Replaces a non-empty pattern; `skip` characters of the text belong to the last match. -/
def replaceFrom (pat sub : List Char) : (skip : Nat) → List Char → List Char
  | _, [] => []
  | skip + 1, _ :: cs => replaceFrom pat sub skip cs
  | 0, c :: cs =>
    if pat.isPrefixOf (c :: cs) then sub ++ replaceFrom pat sub (pat.length - 1) cs
    else c :: replaceFrom pat sub 0 cs

/-- `sub` before every character and at the end. -/
def interleave (sub : List Char) : List Char → List Char
  | [] => sub
  | c :: cs => sub ++ c :: interleave sub cs

/-- The text with every occurrence of `pat` replaced by `sub`. -/
def replace (pat sub s : List Char) : List Char :=
  if pat.isEmpty then interleave sub s else replaceFrom pat sub 0 s

end BuildPlan.Text
