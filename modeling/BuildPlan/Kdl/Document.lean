import BuildPlan.Kdl.Token

/-!
# KDL documents

A document is a list of nodes. A node has a name, entries and nodes of its own; an entry is a
property or an argument. Type marks are read and forgotten, and so is what a slashdash takes out.
Of numbers only the kind is kept.
-/

namespace BuildPlan.Kdl

inductive Value where
  | text (s : String)
  | number
  | bool (b : Bool)
  | null
  deriving DecidableEq, Repr

inductive Entry where
  | property (name : String) (value : Value)
  | argument (value : Value)
  deriving DecidableEq, Repr

inductive Node where
  | mk (name : String) (entries : List Entry) (children : List Node)

namespace Node

def name : Node → String
  | mk name _ _ => name

def entries : Node → List Entry
  | mk _ entries _ => entries

def children : Node → List Node
  | mk _ _ children => children

end Node

/-! ## Entries -/

def skipSpace : List Token → List Token
  | .space :: rest => skipSpace rest
  | rest => rest

/-- Skips space and newlines between nodes. -/
def skipLines : List Token → List Token
  | .space :: rest => skipLines rest
  | .newline :: rest => skipLines rest
  | rest => rest

/-- Reads a type mark behind its opening parenthesis. -/
def skipType? (ts : List Token) : Option (List Token) :=
  match skipSpace ts with
  | .text _ :: rest =>
    match skipSpace rest with
    | .closeParen :: rest => some (skipSpace rest)
    | _ => none
  | _ => none

def skipTypes? : List Token → Option (List Token)
  | .openParen :: rest => skipType? rest
  | rest => some rest

def plainValue? : List Token → Option (Value × List Token)
  | .text s :: rest => some (.text s, rest)
  | .number :: rest => some (.number, rest)
  | .bool b :: rest => some (.bool b, rest)
  | .null :: rest => some (.null, rest)
  | _ => none

def readValue (ts : List Token) : Option (Value × List Token) :=
  (skipTypes? ts).bind plainValue?

def readEntry (ts : List Token) : Option (Entry × List Token) :=
  match ts with
  | .text name :: rest =>
    match skipSpace rest with
    | .equals :: rest =>
      (readValue (skipSpace rest)).map fun r => (.property name r.1, r.2)
    | _ => some (.argument (.text name), rest)
  | ts => (readValue ts).map fun r => (.argument r.1, r.2)

/-! ## Nodes -/

/-- What may still come in a node. -/
inductive Phase where
  | entries
  /-- Only nodes inside, or such as are taken out. -/
  | children
  /-- Only such nodes as are taken out. -/
  | done
  deriving DecidableEq, Repr

/-- What follows the end of a node, which is not read where it is a closing brace. -/
def endNode? : List Token → Option (List Token)
  | [] => some []
  | .newline :: rest => some rest
  | .semicolon :: rest => some rest
  | .closeBrace :: rest => some (.closeBrace :: rest)
  | _ => none

mutual

def readNode : (fuel : Nat) → List Token → Option (Node × List Token)
  | 0, _ => none
  | fuel + 1, ts =>
    match skipTypes? ts with
    | some (.text name :: rest) => readBody fuel name [] [] .entries false rest
    | _ => none

/-- Reads the rest of a node from what has been read of it, entries last first; `spaced` says
whether space has just been read. -/
def readBody : (fuel : Nat) → (name : String) → List Entry → List Node → Phase →
    (spaced : Bool) → List Token → Option (Node × List Token)
  | 0, _, _, _, _, _, _ => none
  | fuel + 1, name, entries, children, phase, spaced, ts =>
    match ts with
    | .space :: rest => readBody fuel name entries children phase true rest
    | .slashdash :: rest =>
      match skipLines rest with
      | .openBrace :: rest =>
        match readNodes fuel rest with
        | some (_, .closeBrace :: rest) =>
          readBody fuel name entries children (if phase = .entries then .children else phase) false
            rest
        | _ => none
      | rest =>
        if phase = .entries then
          match readEntry rest with
          | some (_, rest) => readBody fuel name entries children phase false rest
          | none => none
        else none
    | .openBrace :: rest =>
      if phase = .done then none
      else
        match readNodes fuel rest with
        | some (inside, .closeBrace :: rest) => readBody fuel name entries inside .done false rest
        | _ => none
    | .text s :: rest =>
      if phase = .entries ∧ spaced then
        match readEntry (.text s :: rest) with
        | some (entry, rest) => readBody fuel name (entry :: entries) children phase false rest
        | none => none
      else none
    | .number :: rest =>
      if phase = .entries ∧ spaced then
        readBody fuel name (.argument .number :: entries) children phase false rest
      else none
    | .bool b :: rest =>
      if phase = .entries ∧ spaced then
        readBody fuel name (.argument (.bool b) :: entries) children phase false rest
      else none
    | .null :: rest =>
      if phase = .entries ∧ spaced then
        readBody fuel name (.argument .null :: entries) children phase false rest
      else none
    | .openParen :: rest =>
      if phase = .entries ∧ spaced then
        match readEntry (.openParen :: rest) with
        | some (entry, rest) => readBody fuel name (entry :: entries) children phase false rest
        | none => none
      else none
    | ts =>
      match endNode? ts with
      | some _ => some (.mk name entries.reverse children, ts)
      | none => none

/-- Reads nodes up to a closing brace or the end of the document. -/
def readNodes : (fuel : Nat) → List Token → Option (List Node × List Token)
  | 0, _ => none
  | fuel + 1, ts =>
    match skipLines ts with
    | [] => some ([], [])
    | .closeBrace :: rest => some ([], .closeBrace :: rest)
    | .slashdash :: rest =>
      match readNode fuel (skipLines rest) with
      | none => none
      | some (_, rest) => (endNode? rest).bind (readNodes fuel)
    | rest =>
      match readNode fuel rest with
      | none => none
      | some (node, rest) =>
        match (endNode? rest).bind (readNodes fuel) with
        | some (nodes, rest) => some (node :: nodes, rest)
        | none => none

end

def parse? (source : String) : Option (List Node) :=
  match tokens? source with
  | none => none
  | some ts =>
    match readNodes (2 * ts.length + 2) ts with
    | some (nodes, []) => some nodes
    | _ => none

end BuildPlan.Kdl
