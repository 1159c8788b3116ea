/-!
# Shell patterns

A pattern is a list of characters of which some stand for others: a star for any text, a question
mark for any character, brackets for one of several characters. A quoted character stands for
itself.
-/

namespace BuildPlan.Shell

/-- A part of a pattern. -/
inductive PatternPart where
  | one (c : Char)
  | any
  | anyText
  /-- One of the characters between two bounds, or none of them. -/
  | among (negated : Bool) (ranges : List (Char × Char))
  deriving DecidableEq, Repr

/-- The ranges that are written between brackets. -/
def rangesOf : List Char → List (Char × Char)
  | lo :: '-' :: hi :: rest => (lo, hi) :: rangesOf rest
  | c :: rest => (c, c) :: rangesOf rest
  | [] => []

/-- The set between brackets and what follows it. -/
def bracket? (cs : List (Char × Bool)) : Option (PatternPart × List (Char × Bool)) :=
  let (negated, cs) := match cs with
    | ('!', false) :: rest => (true, rest)
    | cs => (false, cs)
  match cs with
  | [] => none
  | c :: rest =>
    let more := rest.takeWhile (· != (']', false))
    match rest.dropWhile (· != (']', false)) with
    | [] => none
    | _ :: behind => some (.among negated (rangesOf ((c :: more).map (·.1))), behind)

/-- The parts of a pattern whose characters are marked where quoted; `fuel` bounds their number. -/
def patternFrom : (fuel : Nat) → List (Char × Bool) → List PatternPart
  | 0, _ => []
  | _ + 1, [] => []
  | fuel + 1, (c, quoted) :: cs =>
    if quoted then .one c :: patternFrom fuel cs
    else if c = '*' then .anyText :: patternFrom fuel cs
    else if c = '?' then .any :: patternFrom fuel cs
    else if c = '[' then
      match bracket? cs with
      | some (p, rest) => p :: patternFrom fuel rest
      | none => .one c :: patternFrom fuel cs
    else .one c :: patternFrom fuel cs

def patternOf (cs : List (Char × Bool)) : List PatternPart :=
  patternFrom (cs.length + 1) cs

/-- Whether a character is one that a part stands for. -/
def PatternPart.admits (p : PatternPart) (c : Char) : Bool :=
  match p with
  | one d => c = d
  | any => true
  | anyText => false
  | among negated ranges => ranges.any (fun (lo, hi) => lo ≤ c && c ≤ hi) != negated

/-- Whether some end of a text passes a test. -/
def anyEnd (test : List Char → Bool) : List Char → Bool
  | [] => test []
  | c :: cs => test (c :: cs) || anyEnd test cs

def fits : List PatternPart → List Char → Bool
  | [], cs => cs.isEmpty
  | .anyText :: ps, cs => anyEnd (fits ps) cs
  | p :: ps, c :: cs => p.admits c && fits ps cs
  | _ :: _, [] => false

/-- Whether a pattern holds a part that stands for other characters. -/
def isProper (ps : List PatternPart) : Bool :=
  ps.any fun
    | .one _ => false
    | _ => true

end BuildPlan.Shell
