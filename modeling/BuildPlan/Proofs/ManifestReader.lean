import BuildPlan.Ninja.Render
import BuildPlan.Text.Search

/-!
# Reading manifests

How the text of a manifest is read, as far as manifests are written here. A line that starts with a
keyword is a statement, two spaces in front make a line a binding of the statement above it, and any
other line with a name is a variable; the value of either is the rest of the line. In a `build` or
`default` line spaces separate paths, a dollar sign takes the meaning away from the special
character behind it, and in front of any other character it opens a reference to a variable. What is
read is not expanded: a path is given back as what it was built from.
-/

namespace BuildPlan.Ninja

/-! ## What manifests are built from -/

/-- What a path is built from. -/
inductive PathSource where
  | literal (path : String)
  | below (var path : String)
  deriving DecidableEq, Repr

def PathSource.escaped : PathSource → EscapedPath
  | literal path => .literal path
  | below var path => .below var path

/-- An edge by the sources of its paths. -/
structure SourceEdge where
  outputs : List PathSource
  rule : String
  inputs : List PathSource := []
  implicit : List PathSource := []
  orderOnly : List PathSource := []
  bindings : List (String × String) := []
  deriving DecidableEq, Repr

def SourceEdge.edge (e : SourceEdge) : Edge where
  outputs := e.outputs.map PathSource.escaped
  rule := e.rule
  inputs := e.inputs.map PathSource.escaped
  implicit := e.implicit.map PathSource.escaped
  orderOnly := e.orderOnly.map PathSource.escaped
  bindings := e.bindings

/-- What a manifest says besides its comment. -/
structure Document where
  vars : List (String × String) := []
  rules : List Rule := []
  edges : List SourceEdge := []
  defaults : List PathSource := []
  deriving DecidableEq, Repr

/-- The manifest that says this, with the given comment. -/
def Document.manifest (d : Document) (comments : List String) : Manifest where
  comments := comments
  vars := d.vars
  rules := d.rules
  edges := d.edges.map SourceEdge.edge
  defaults := d.defaults.map PathSource.escaped

/-! ## Names -/

def isNameChar (c : Char) : Bool :=
  c.isAlphanum || c == '_' || c == '.' || c == '-'

def isIdentifier (cs : List Char) : Bool :=
  !cs.isEmpty && cs.all isNameChar

def keywords : List String :=
  ["build", "default", "include", "pool", "rule", "subninja"]

/-- Whether a text can be declared as a name. -/
def isDeclarable (cs : List Char) : Bool :=
  isIdentifier cs && !keywords.contains (String.ofList cs)

/-! ## Paths -/

/-- A character of a path, or the opening of a reference. -/
inductive Glyph where
  | char (c : Char)
  | reference
  deriving DecidableEq, Repr

/-- A part of a line that lists paths. -/
inductive Token where
  | path (glyphs : List Glyph)
  | colon
  | pipe
  | doublePipe
  deriving DecidableEq, Repr

/-- The tokens with the word in front of them as a path, if there is one. -/
def close (word : List Glyph × List Token) : List Token :=
  if word.1 = [] then word.2 else .path word.1 :: word.2

/-- The word that a text starts with, and the tokens behind it. -/
def scan : List Char → List Glyph × List Token
  | [] => ([], [])
  | ' ' :: cs => ([], close (scan cs))
  | ':' :: cs => ([], .colon :: close (scan cs))
  | '|' :: '|' :: cs => ([], .doublePipe :: close (scan cs))
  | '|' :: cs => ([], .pipe :: close (scan cs))
  | '$' :: '$' :: cs => (.char '$' :: (scan cs).1, (scan cs).2)
  | '$' :: ' ' :: cs => (.char ' ' :: (scan cs).1, (scan cs).2)
  | '$' :: ':' :: cs => (.char ':' :: (scan cs).1, (scan cs).2)
  | '$' :: cs => (.reference :: (scan cs).1, (scan cs).2)
  | c :: cs => (.char c :: (scan cs).1, (scan cs).2)
termination_by structural cs => cs

def tokens (cs : List Char) : List Token :=
  close (scan cs)

/-- The characters of a word without references. -/
def chars? (glyphs : List Glyph) : Option (List Char) :=
  glyphs.mapM fun
    | .char c => some c
    | .reference => none

/-- What a word was built from as a path. Behind the name of a reference there is a slash, and no name
has one. -/
def sourceOf? : List Glyph → Option PathSource
  | .reference :: glyphs => do
    let cs ← chars? glyphs
    match cs.dropWhile (· ≠ '/') with
    | [] => none
    | _ :: path =>
      if isIdentifier (cs.takeWhile (· ≠ '/')) then
        some (.below (String.ofList (cs.takeWhile (· ≠ '/'))) (String.ofList path))
      else none
  | glyphs => (chars? glyphs).map fun cs => .literal (String.ofList cs)

/-- The paths that tokens start with, and the tokens behind them. -/
def pathsFrom : List Token → List (List Glyph) × List Token
  | .path glyphs :: ts => (glyphs :: (pathsFrom ts).1, (pathsFrom ts).2)
  | ts => ([], ts)

/-- The paths behind a mark, if tokens start with it, and the tokens behind those. -/
def pathsBehind (mark : Token) (ts : List Token) : List (List Glyph) × List Token :=
  match ts with
  | [] => ([], [])
  | t :: rest => if t = mark then pathsFrom rest else ([], ts)

/-! ## Lines -/

def readField (cs : List Char) : Option (String × String) :=
  let name := cs.takeWhile (· ≠ ' ')
  if isDeclarable name then
    (Text.stripStart? [' ', '=', ' '] (cs.dropWhile (· ≠ ' '))).map fun value =>
      (String.ofList name, String.ofList value)
  else none

def isSet (fields : List (String × String)) (name : String) : Bool :=
  (fields.lookup name).any (· ≠ "")

def ruleOf? (name : List Char) (fields : List (String × String)) : Option Rule :=
  if isDeclarable name then
    (fields.lookup "command").map fun command =>
      { name := String.ofList name
        command := command
        description := fields.lookup "description"
        deps := fields.lookup "deps"
        depfile := fields.lookup "depfile"
        generator := isSet fields "generator"
        restat := isSet fields "restat" }
  else none

/-- The edge with the given tokens and bindings. -/
def edgeOf? (ts : List Token) (fields : List (String × String)) : Option SourceEdge :=
  let outputs := pathsFrom ts
  match outputs.2 with
  | .colon :: .path rule :: rest =>
    let inputs := pathsFrom rest
    let implicit := pathsBehind .pipe inputs.2
    let orderOnly := pathsBehind .doublePipe implicit.2
    if orderOnly.2 = [] then do
      let name ← chars? rule
      let outputs ← outputs.1.mapM sourceOf?
      let inputs ← inputs.1.mapM sourceOf?
      let implicit ← implicit.1.mapM sourceOf?
      let orderOnly ← orderOnly.1.mapM sourceOf?
      if isDeclarable name then
        some ⟨outputs, String.ofList name, inputs, implicit, orderOnly, fields⟩
      else none
    else none
  | _ => none

/-- What lines say: the bindings at their start, which belong to a line above, and the rest. -/
structure Reading where
  fields : List (String × String) := []
  document : Document := {}
  deriving DecidableEq, Repr

/-- What lines say that no line above has bindings in. -/
def Reading.document? (r : Reading) : Option Document :=
  if r.fields = [] then some r.document else none

/-- What lines say with one more in front of them. -/
def readLine (line : List Char) (r : Reading) : Option Reading :=
  let word := line.takeWhile (· ≠ ' ')
  let behind := (line.dropWhile (· ≠ ' ')).tail
  if line = [] ∨ line.head? = some '#' then r.document?.map fun d => ⟨[], d⟩
  else if word = [] then do
    let cs ← Text.stripStart? [' ', ' '] line
    let field ← readField cs
    some { r with fields := field :: r.fields }
  else if word = ['r', 'u', 'l', 'e'] then do
    let rule ← ruleOf? behind r.fields
    some ⟨[], { r.document with rules := rule :: r.document.rules }⟩
  else if word = ['b', 'u', 'i', 'l', 'd'] then do
    let edge ← edgeOf? (tokens behind) r.fields
    some ⟨[], { r.document with edges := edge :: r.document.edges }⟩
  else if word = ['d', 'e', 'f', 'a', 'u', 'l', 't'] then do
    let d ← r.document?
    let paths := pathsFrom (tokens behind)
    if paths.2 = [] then do
      let defaults ← paths.1.mapM sourceOf?
      some ⟨[], { d with defaults := defaults ++ d.defaults }⟩
    else none
  else do
    let d ← r.document?
    let field ← readField line
    some ⟨[], { d with vars := field :: d.vars }⟩

def readLines : List (List Char) → Option Reading
  | [] => some {}
  | line :: rest => (readLines rest).bind (readLine line)

def Document.read? (text : String) : Option Document :=
  (readLines (Text.split '\n' text.toList)).bind Reading.document?

end BuildPlan.Ninja
