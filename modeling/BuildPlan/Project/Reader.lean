import BuildPlan.Kdl.Document
import BuildPlan.Project.Basic

/-!
# Reading project manifests

A manifest is a KDL document. Five sections are required, and a section that comes again replaces
the one before; every other node is a source, whatever its name. The last of several properties of
one name counts, unknown properties do not, and an argument is an error. Of the nodes inside a
section only those of the library count that name further files.
-/

namespace BuildPlan.Project

open Kdl (Node Entry Value)

/-- The values of the properties with the given name. -/
def valuesOf (name : String) (entries : List Entry) : List Value :=
  entries.filterMap fun
    | .property n v => if n = name then some v else none
    | .argument _ => none

def textOf? : Value → Option String
  | .text s => some s
  | _ => none

/-- The text that a value is, or nothing for the null value. -/
def optionalOf? : Value → Option (Option String)
  | .text s => some (some s)
  | .null => some none
  | _ => none

def required? (name : String) (entries : List Entry) : Option String :=
  ((valuesOf name entries).mapM textOf?).bind List.getLast?

def optional? (name : String) (entries : List Entry) : Option (Option String) :=
  ((valuesOf name entries).mapM optionalOf?).map fun vs => vs.getLast?.join

/-- The entries of a node, if none is an argument. -/
def properties? (node : Node) : Option (List Entry) :=
  if node.entries.all (fun | .property _ _ => true | .argument _ => false) then some node.entries
  else none

def readGeneral (node : Node) : Option General := do
  let ps ← properties? node
  pure ⟨← required? "name" ps, ← required? "src" ps, ← required? "out" ps⟩

def readCodegen (node : Node) : Option Codegen := do
  let ps ← properties? node
  pure ⟨← required? "input" ps, ← required? "output" ps, ← required? "tool" ps,
    ← required? "script" ps⟩

/-- Reads which headers the compiler carries. -/
def readIncludes (node : Node) : Option Includes := do
  let ps ← properties? node
  pure ⟨← required? "dir" ps, ← required? "output" ps, ← optional? "consumer" ps⟩

def readItem (node : Node) : Option Item := do
  let ps ← properties? node
  pure ⟨← required? "path" ps, ← optional? "from" ps⟩

/-- Reads the nodes with the given name as further files. -/
def readItems (name : String) (nodes : List Node) : Option (List Item) :=
  (nodes.filter (·.name == name)).mapM readItem

def readLibrary (node : Node) : Option Library := do
  let ps ← properties? node
  pure ⟨← required? "dir" ps, ← required? "name" ps, ← required? "header" ps,
    ← required? "license" ps, ← required? "switch" ps, ← readItems "prelude" node.children,
    ← readItems "epilogue" node.children⟩

def readTests (node : Node) : Option Tests := do
  let ps ← properties? node
  pure ⟨← required? "dir" ps, ← required? "support" ps, ← optional? "fixtures" ps,
    ← optional? "scenarios" ps, ← optional? "fuzz" ps, ← optional? "run" ps⟩

def readSource (node : Node) : Option Source := do
  let ps ← properties? node
  pure ⟨← required? "path" ps, ← optional? "variant" ps⟩

def sectionNames : List String := ["project", "codegen", "includes", "amalg", "tests"]

/-- The last section with the given name, if each of them can be read. -/
def lastSection? {α : Type} (name : String) (read? : Node → Option α) (nodes : List Node) :
    Option α :=
  ((nodes.filter (·.name == name)).mapM read?).bind List.getLast?

def ofNodes? (nodes : List Node) : Option Project := do
  pure {
    general := ← lastSection? "project" readGeneral nodes
    codegen := ← lastSection? "codegen" readCodegen nodes
    includes := ← lastSection? "includes" readIncludes nodes
    library := ← lastSection? "amalg" readLibrary nodes
    tests := ← lastSection? "tests" readTests nodes
    sources := ← (nodes.filter fun n => !sectionNames.contains n.name).mapM readSource }

/-- The project that a manifest describes. -/
def parse? (source : String) : Option Project :=
  (Kdl.parse? source).bind ofNodes?

end BuildPlan.Project
