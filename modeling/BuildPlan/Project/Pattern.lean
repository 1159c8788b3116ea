import BuildPlan.Text.Split

/-!
# File name patterns

A pattern is a file name in which one `*` may stand for any characters, also for none. It never
reaches into a directory.
-/

namespace BuildPlan

/-- A pattern: what the name starts with, and what it ends with if there is a `*` between. -/
structure NamePattern where
  start : List Char
  ending : Option (List Char)
  deriving DecidableEq, Repr

namespace NamePattern

/-- Reads a pattern; none where it has more than one `*` or a slash. -/
def ofString? (s : String) : Option NamePattern :=
  if s.toList.contains '/' then none
  else
    match Text.split '*' s.toList with
    | [start] => some ⟨start, none⟩
    | [start, ending] => some ⟨start, some ending⟩
    | _ => none

/-- Whether a file name fits. Start and end of the name may not overlap. -/
def fits (p : NamePattern) (name : String) : Bool :=
  match p.ending with
  | none => name.toList == p.start
  | some ending =>
    p.start.length + ending.length ≤ name.toList.length &&
      p.start.isPrefixOf name.toList && ending.isSuffixOf name.toList

end NamePattern

end BuildPlan
