import BuildPlan.Path
import BuildPlan.Text.Line
import BuildPlan.Text.Search

/-!
# The library's source

All sources of a compiler in one file. What is shared between objects becomes static: the marker of
a definition is replaced, and a declaration that only other objects need is left out, as is the
inclusion of a file that is itself a member. The code generated for both calling conventions comes
last, chosen between by a preprocessor symbol.
-/

namespace BuildPlan

/-- A file that becomes part of the library. -/
structure LibraryMember where
  path : String
  contents : String
  deriving DecidableEq, Repr

namespace Library

/-! ## Lines -/

/-- What marks a definition as static in the library. -/
def staticMarks : List (List Char) :=
  ["IMPLSTATIC ".toList, "DASM_FDEF ".toList]

/-- What stands in place of such a marker. -/
def staticWord : List Char := "static ".toList

/-- What a declaration for other objects starts with. -/
def foreignMark : List Char := "IMPLEXTERN ".toList

/-- What the inclusion of a file by its quoted name starts with. -/
def includeStart : List Char := "#include \"".toList

/-- The name of the file that a line includes. -/
def includedName? (line : List Char) : Option String :=
  match Text.stripStart? includeStart line with
  | none => none
  | some rest =>
    if rest.contains '"' then some (String.ofList (rest.takeWhile (· != '"'))) else none

/-- Whether a line includes one of the members. -/
def namesMember (members : List String) (line : List Char) : Bool :=
  match includedName? line with
  | none => false
  | some name => members.any fun path => Path.endsWith path name

/-- Whether a line is left out. -/
def isDropped (members : List String) (line : List Char) : Bool :=
  foreignMark.isPrefixOf line || namesMember members line

/-- A line with its markers replaced. -/
def markStatic (line : List Char) : List Char :=
  staticMarks.foldl (fun line marker => Text.replace marker staticWord line) line

/-- A line ended by a line feed. -/
def endLine (line : List Char) : List Char :=
  if line.getLast? = some '\n' then line else line ++ ['\n']

/-- The lines that are kept of a file, as they stand in the library. -/
def keptLines (members : List String) (contents : String) : List (List Char) :=
  ((Text.pieces contents.toList).filter (!isDropped members ·)).map fun line =>
    endLine (markStatic line)

/-! ## Members -/

/-- Macros that files define for themselves and leave defined. -/
def strayMacros : List String := ["C", "L", "VOID"]

/-- The warnings that files of the assembler give rise to. -/
def assemblerWarnings : List Nat := [4127, 4242, 4244]

/-- Whether a file belongs to the assembler. -/
def isAssembler (path : String) : Bool :=
  Text.occursIn "dynasm/".toList path.toList

/-- A path without the parts that lead up or nowhere at its start. -/
def shownPath (path : String) : String :=
  Path.joinComponents ((Path.components path).dropWhile fun c => c = .parent || c = .current)

def memberHead (path : String) : List String :=
  strayMacros.map ("#undef " ++ ·) ++
  (if isAssembler path then
    ["#ifdef _MSC_VER", "#pragma warning(push)"] ++
    assemblerWarnings.map (fun w => "#pragma warning(disable: " ++ Nat.repr w ++ ")") ++ ["#endif"]
  else []) ++
  ["//", "// START OF " ++ shownPath path, "//"]

def memberTail (path : String) : List String :=
  ["//", "// END OF " ++ shownPath path, "//"] ++
  (if isAssembler path then ["#ifdef _MSC_VER", "#pragma warning(pop)", "#endif"] else [])

/-- What is written for a member between its head and its tail. -/
def memberBody (members : List String) (m : LibraryMember) : String :=
  String.ofList (keptLines members m.contents).flatten

def memberText (members : List String) (m : LibraryMember) : String :=
  Text.unlines (memberHead m.path) ++ memberBody members m ++ Text.unlines (memberTail m.path)

/-- The library's source: the inputs, then the code generated for either convention. -/
def source (inputs : List LibraryMember) (switch : String) (win sysv : LibraryMember) : String :=
  let members := (inputs ++ [win, sysv]).map (·.path)
  String.join (inputs.map (memberText members)) ++
    "#if " ++ switch ++ "\n" ++
    memberText members win ++
    "#else // ^^^ " ++ switch ++ " / !" ++ switch ++ " vvv\n" ++
    memberText members sysv ++
    "#endif // !" ++ switch ++ "\n"

end Library

end BuildPlan
