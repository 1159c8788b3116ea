import BuildPlan.Text.Split

/-!
# Paths as texts

A path is a text whose parts are separated by slashes. What a path means lexically is its list of
components: empty parts and `.` parts do not count, but for a `.` that stands first, and a leading
slash is a component of its own. Nothing here looks at a file system, and `..` is never resolved.
The functions that cut a path keep the text of what is left, up to parts at the cut that do not
count.
-/

namespace BuildPlan

/-- One step of a path. -/
inductive Component where
  | root
  | current
  | parent
  | name (text : String)
  deriving DecidableEq, Repr

namespace Component

def text : Component → String
  | root => "/"
  | current => "."
  | parent => ".."
  | name s => s

end Component

namespace Path

/-- A part that is no component unless it stands first. -/
def isIdle (part : List Char) : Bool :=
  part == [] || part == ['.']

/-- The component that a part is, wherever it stands. -/
def componentOf (part : List Char) : Component :=
  if part = ['.', '.'] then .parent else .name (String.ofList part)

/-- A path cut at its slashes: whether it is absolute, its leading `.` if it has one, and the
remaining parts, idle ones included. -/
structure Parts where
  absolute : Bool
  dotted : Bool
  rest : List (List Char)

/-- Cuts a path into its parts. -/
def parts (path : String) : Parts :=
  match path.toList with
  | '/' :: cs => ⟨true, false, Text.split '/' cs⟩
  | cs =>
    match Text.split '/' cs with
    | ['.'] :: rest => ⟨false, true, rest⟩
    | rest => ⟨false, false, rest⟩

def Parts.toText (p : Parts) : String :=
  let body := Text.joinWith "/" ((if p.dotted then ["."] else []) ++ p.rest.map String.ofList)
  if p.absolute then "/" ++ body else body

/-- The components that a path starts with by its form. -/
def Parts.lead (p : Parts) : List Component :=
  if p.absolute then [.root] else if p.dotted then [.current] else []

def components (path : String) : List Component :=
  let p := parts path
  p.lead ++ (p.rest.filter (!isIdle ·)).map componentOf

def isAbsolute (path : String) : Bool :=
  path.toList.head? == some '/'

/-- `rel` below `base`, or `rel` alone where it is absolute or `base` is empty. -/
def join (base rel : String) : String :=
  if isAbsolute rel || base.isEmpty then rel
  else if base.toList.getLast? = some '/' then base ++ rel
  else base ++ "/" ++ rel

def fileName? (path : String) : Option String :=
  match (components path).getLast? with
  | some (.name s) => some s
  | _ => none

/-- The part of the file name behind its last dot; none where nothing stands before that dot. -/
def extension? (path : String) : Option String :=
  match fileName? path with
  | none => none
  | some name =>
    match Text.splitLast '.' name.toList with
    | none => none
    | some ([], _) => none
    | some (_ :: _, after) => some (String.ofList after)

/-- The parts without trailing idle ones. -/
def dropIdleEnd (parts : List (List Char)) : List (List Char) :=
  (parts.reverse.dropWhile isIdle).reverse

/-- The path without its last component; none for the empty path and for the root. -/
def parent? (path : String) : Option String :=
  let p := parts path
  match (p.rest.reverse.dropWhile isIdle) with
  | _ :: before => some { p with rest := dropIdleEnd before.reverse }.toText
  | [] => if p.dotted then some "" else none

/-- Drops idle parts and `n` others from the front. -/
def dropComponents : (n : Nat) → List (List Char) → List (List Char)
  | 0, parts => parts.dropWhile isIdle
  | _ + 1, [] => []
  | n + 1, part :: rest =>
    if isIdle part then dropComponents (n + 1) rest else dropComponents n rest

/-- What is left of a path behind the components of `base`, if it starts with them. -/
def stripBase? (path base : String) : Option String :=
  if (components base).isPrefixOf (components path) then
    let p := parts path
    match (components base).length with
    | 0 => some { p with rest := dropIdleEnd p.rest }.toText
    | n + 1 =>
      let behind := if p.absolute || p.dotted then n else n + 1
      some (Text.joinWith "/" ((dropIdleEnd (dropComponents behind p.rest)).map String.ofList))
  else none

/-- Whether the components of `tail` are the last components of the path. -/
def endsWith (path tail : String) : Bool :=
  (components tail).isSuffixOf (components path)

def joinComponents (cs : List Component) : String :=
  Text.joinWith "/" (cs.map Component.text)

end Path

end BuildPlan
