import BuildPlan.Files.Write
import BuildPlan.Pack.Headers
import BuildPlan.Pack.Library

/-!
# Packing steps

The two steps of a build that write packed files. Each reads all that it needs before it writes
anything, and leaves a file alone that holds the right contents already.
-/

namespace BuildPlan

/-- Why a packing step fails. -/
inductive PackingError where
  | unreadable (path : String) (reason : FileError)
  | unwritten (path : String) (reason : FileError)
  | outside (path root : String)
  | withoutHeaders
  deriving DecidableEq, Repr

def PackingError.message : PackingError → String
  | unreadable path reason => "failed to read " ++ path ++ ": " ++ reason.message
  | unwritten path reason => "failed to write " ++ path ++ ": " ++ reason.message
  | outside path root => path ++ " is not under the include root " ++ root
  | withoutHeaders => "no headers to pack"

namespace Pack

def textAt (t : FileTree) (path : String) : Except PackingError String :=
  match t.readText path with
  | .ok text => .ok text
  | .error e => .error (.unreadable path e)

/-- Writes files in order, up to the first that cannot be written. -/
def writeFiles (t : FileTree) : List (String × String) → FileTree × Except PackingError Unit
  | [] => (t, .ok ())
  | (path, text) :: rest =>
    match t.update path (Text.toUtf8 text) with
    | (t, .ok _) => writeFiles t rest
    | (t, .error e) => (t, .error (.unwritten path e))

/-! ## Headers -/

/-- The directory that the compiler looks its own headers up in. -/
def includeRoot : String := "__include__"

/-- The name that a header is packed under, if it is below the include directory. -/
def packedPath? (root header : String) : Option String :=
  (Path.stripBase? header root).map fun rest =>
    Text.joinWith "/" (includeRoot :: (Path.components rest).map Component.text)

/-- Packs further headers, up to the first that cannot be packed. -/
def packOnto (t : FileTree) (root : String) (packed : PackedHeaders) :
    List String → Except PackingError PackedHeaders
  | [] => .ok packed
  | header :: rest =>
    match packedPath? root header with
    | none => .error (.outside header root)
    | some path =>
      match textAt t header with
      | .error e => .error e
      | .ok text => packOnto t root (packed.push path (Text.toUtf8 text)) rest

/-- Packs the headers of an include directory, in the given order. -/
def packHeaders (t : FileTree) (root : String) (headers : List String) :
    Except PackingError PackedHeaders :=
  match headers with
  | [] => .error .withoutHeaders
  | _ :: _ => packOnto t root {} headers

/-- Packs headers and writes them as one file. -/
def writeHeaders (t : FileTree) (root out : String) (headers : List String) :
    FileTree × Except PackingError PackedHeaders :=
  match packHeaders t root headers with
  | .error e => (t, .error e)
  | .ok packed =>
    match writeFiles t [(out, packed.render)] with
    | (t, .error e) => (t, .error e)
    | (t, .ok ()) => (t, .ok packed)

/-! ## The library -/

/-- What the library is made from, and where it is written. -/
structure LibraryOrder where
  /-- The directory that is written to. -/
  dir : String
  /-- The file name of source and header, without extension. -/
  name : String
  /-- The header that is copied. -/
  header : String
  license : String
  /-- The preprocessor symbol of the Windows convention. -/
  switch : String
  /-- The code generated for either convention. -/
  win : String
  sysv : String
  inputs : List String
  deriving DecidableEq, Repr

def readMember (t : FileTree) (path : String) : Except PackingError LibraryMember :=
  match textAt t path with
  | .ok text => .ok ⟨path, text⟩
  | .error e => .error e

/-- The files of the library: source, header and license. -/
def libraryFiles (t : FileTree) (o : LibraryOrder) :
    Except PackingError (List (String × String)) := do
  let inputs ← o.inputs.mapM (readMember t)
  let win ← readMember t o.win
  let sysv ← readMember t o.sysv
  let header ← textAt t o.header
  let license ← textAt t o.license
  return [(Path.join o.dir (o.name ++ ".c"), Library.source inputs o.switch win sysv),
    (Path.join o.dir (o.name ++ ".h"), header),
    (Path.join o.dir "LICENSE", license)]

def writeLibrary (t : FileTree) (o : LibraryOrder) : FileTree × Except PackingError Unit :=
  match libraryFiles t o with
  | .error e => (t, .error e)
  | .ok files => writeFiles t files

end Pack

end BuildPlan
