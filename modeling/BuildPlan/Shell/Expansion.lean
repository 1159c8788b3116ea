import BuildPlan.Shell.Arithmetic
import BuildPlan.Shell.Pattern
import BuildPlan.Shell.State
import BuildPlan.Shell.Token
import BuildPlan.Text.Utf8

/-!
# Expanding words

A word becomes the arguments that it stands for. Values that are not quoted are split at blanks, and
what is then a pattern is replaced by the names of the files that fit it, if any do. How commands
are run for their output is a parameter here.
-/

namespace BuildPlan.Shell

abbrev Substitute := State → List Char → State × String

/-- The characters of an argument, each marked where quoted. -/
abbrev Field := List (Char × Bool)

/-- A part of an expanded word. -/
inductive Expanded where
  | chars (cs : List Char) (quoted : Bool)
  /-- A value that is split at blanks. -/
  | split (cs : List Char)
  /-- The end of an argument. -/
  | gap
  deriving DecidableEq, Repr

/-- What expanding gives: parts, or a failure that ends the script. -/
abbrev Expansion := State × Option (List Expanded)

/-! ## Parameters -/

/-- The number that `$$` stands for. -/
def processNumber : Nat := 4711

/-- The value of a parameter, if it has one. -/
def parameter? (s : State) (name : String) : Option String :=
  match name with
  | "#" => some (Nat.repr s.args.length)
  | "?" => some (Nat.repr s.status)
  | "$" => some (Nat.repr processNumber)
  | "0" => some s.name
  | "-" => some ""
  | "!" => none
  | "@" => if s.args.isEmpty then none else some (" ".intercalate s.args)
  | "*" => if s.args.isEmpty then none else some (" ".intercalate s.args)
  | _ =>
    match name.toNat? with
    | some n => s.args[n - 1]?
    | none => s.valueOf? name

def variableNumber (s : State) (name : String) : Int :=
  (Text.parseInt? ((s.valueOf? name).getD "").toList).getD 0

def argumentParts (quoted : Bool) (args : List String) : List Expanded :=
  (args.map fun a => if quoted then Expanded.chars a.toList true else .split a.toList).intersperse
    .gap

def valuePart (quoted : Bool) (value : List Char) : Expanded :=
  if quoted then .chars value true else .split value

/-- The starts of a text, each with what follows it, the shortest first. -/
def cuts : List Char → List (List Char × List Char)
  | [] => [([], [])]
  | c :: cs => ([], c :: cs) :: (cuts cs).map fun (a, b) => (c :: a, b)

/-- A value without a start that fits a pattern. -/
def dropStart (longest : Bool) (pattern : List PatternPart) (value : List Char) : List Char :=
  let all := if longest then (cuts value).reverse else cuts value
  match all.find? fun (start, _) => fits pattern start with
  | some (_, rest) => rest
  | none => value

/-- A value without an end that fits a pattern. -/
def dropEnd (longest : Bool) (pattern : List PatternPart) (value : List Char) : List Char :=
  let all := if longest then cuts value else (cuts value).reverse
  match all.find? fun (_, rest) => fits pattern rest with
  | some (start, _) => start
  | none => value

/-- The characters of parts that are not split. -/
def joined (parts : List Expanded) : Field :=
  parts.flatMap fun
    | .chars cs quoted => cs.map (·, quoted)
    | .split cs => cs.map (·, false)
    | .gap => [(' ', false)]

def fieldText (f : Field) : List Char :=
  f.map (·.1)

/-! ## Pieces -/

mutual

/-- Expands the pieces of a word; `fuel` bounds how deep words nest. -/
def expandPieces (run : Substitute) : (fuel : Nat) → State → Word → Expansion
  | 0, s, _ => (s, none)
  | _ + 1, s, [] => (s, some [])
  | fuel + 1, s, p :: ps =>
    match expandPiece run fuel s p with
    | (s, none) => (s, none)
    | (s, some front) =>
      match expandPieces run fuel s ps with
      | (s, none) => (s, none)
      | (s, some rest) => (s, some (front ++ rest))

def expandPiece (run : Substitute) : (fuel : Nat) → State → Piece → Expansion
  | 0, s, _ => (s, none)
  | fuel + 1, s, p =>
    match p with
    | .text cs quoted => (s, some [.chars cs quoted])
    | .output source quoted =>
      let (s, text) := run s source
      (s, some [valuePart quoted text.toList])
    | .number source quoted =>
      match expandSource run fuel s .double source with
      | (s, none) => (s, none)
      | (s, some f) =>
        match arithmetic? (variableNumber s) (fieldText f) with
        | some n => (s, some [valuePart quoted (Text.showInt n).toList])
        | none => (s, none)
    | .parameter name alteration quoted => expandParameter run fuel s name alteration quoted

def expandSource (run : Substitute) : (fuel : Nat) → State → Context → List Char →
    State × Option Field
  | 0, s, _, _ => (s, none)
  | fuel + 1, s, ctx, source =>
    let source := if ctx = .double then source ++ ['"'] else source
    match wordOf ctx source with
    | none => (s, none)
    | some w =>
      match expandPieces run fuel s w with
      | (s, none) => (s, none)
      | (s, some parts) => (s, some (joined parts))

def expandParameter (run : Substitute) : (fuel : Nat) → State → String → Alteration →
    (quoted : Bool) → Expansion
  | 0, s, _, _, _ => (s, none)
  | fuel + 1, s, name, alteration, quoted =>
    let value := parameter? s name
    let has (empty : Bool) : Bool := value.any fun v => !empty || !v.isEmpty
    let asIs : List Expanded :=
      if name = "@" || (name = "*" && !quoted) then argumentParts quoted s.args
      else [valuePart quoted (value.getD "").toList]
    let word (source : List Char) (keep : State → List Char → State) : Expansion :=
      match expandSource run fuel s .whole source with
      | (s, none) => (s, none)
      | (s, some f) => (keep s (fieldText f), some [valuePart quoted (fieldText f)])
    let without (drop : List PatternPart → List Char → List Char) (source : List Char) :
        Expansion :=
      match expandSource run fuel s .whole source with
      | (s, none) => (s, none)
      | (s, some f) =>
        (s, some [valuePart quoted (drop (patternOf f) (value.getD "").toList)])
    match alteration with
    | .plain =>
      if s.needsValues && value.isNone && name != "@" && name != "*" then (s, none)
      else (s, some asIs)
    | .length => (s, some [valuePart quoted (Nat.repr (value.getD "").length).toList])
    | .default empty w => if has empty then (s, some asIs) else word w fun s _ => s
    | .assign empty w =>
      if has empty then (s, some asIs)
      else word w fun s text => s.set name (String.ofList text)
    | .alternative empty w =>
      if has empty then word w fun s _ => s else (s, some [valuePart quoted []])
    | .required empty _ => if has empty then (s, some asIs) else (s, none)
    | .dropStart longest w => without (dropStart longest) w
    | .dropEnd longest w => without (dropEnd longest) w

end

/-! ## Arguments -/

/-- More than words nest in a script of that length. -/
def wordDepth (w : Word) : Nat :=
  1000 + w.length

def isSplitter (c : Char) : Bool :=
  c = ' ' || c = '\t' || c = '\n'

/-- The fields of a value behind one that is under way. -/
def splitValue : Option Field → List Char → List Field × Option Field
  | open?, [] => ([], open?)
  | open?, c :: cs =>
    if isSplitter c then
      let (fields, last) := splitValue none cs
      (open?.toList ++ fields, last)
    else splitValue (some (open?.getD [] ++ [(c, false)])) cs

/-- The fields of an expanded word behind one that is under way. -/
def fieldsFrom : Option Field → List Expanded → List Field
  | open?, [] => open?.toList
  | open?, .chars cs quoted :: rest =>
    if cs.isEmpty && !quoted then fieldsFrom open? rest
    else fieldsFrom (some (open?.getD [] ++ cs.map (·, quoted))) rest
  | open?, .split cs :: rest =>
    let (fields, last) := splitValue open? cs
    fields ++ fieldsFrom last rest
  | open?, .gap :: rest => open?.toList ++ fieldsFrom none rest

/-- The names in a directory that fit a pattern; a leading dot has to be written out. -/
def namesFitting (s : State) (dir : String) (pattern : Field) : List String :=
  match s.tree.lookup (if dir.isEmpty then "." else dir) with
  | .ok (loc, .directory) =>
    (s.tree.children loc).filter fun name =>
      fits (patternOf pattern) name.toList &&
        (name.toList.head? != some '.' || (pattern.head?.map (·.1)) == some '.')
  | _ => []

def fieldParts : Field → List Field
  | [] => [[]]
  | (c, quoted) :: rest =>
    match fieldParts rest with
    | [] => [[]]
    | p :: ps => if c = '/' then [] :: p :: ps else ((c, quoted) :: p) :: ps

/-- The paths that begin with `start` and go on as a pattern has it. -/
def pathsFitting (s : State) (start : String) : List Field → List String
  | [] => []
  | [part] => (partNames s start part).map (start ++ ·)
  | part :: rest =>
    (partNames s start part).flatMap fun name => pathsFitting s (start ++ name ++ "/") rest
where
  /-- The names that a part of a pattern stands for. -/
  partNames (s : State) (start : String) (part : Field) : List String :=
    if isProper (patternOf part) then namesFitting s start part
    else
      let name := String.ofList (fieldText part)
      if s.tree.pathExists (if (start ++ name).isEmpty then "/" else start ++ name) then [name]
      else []

/-- The arguments that a field stands for. -/
def fieldArguments (s : State) (f : Field) : List String :=
  let plain := String.ofList (fieldText f)
  if isProper (patternOf f) then
    match pathsFitting s "" (fieldParts f) with
    | [] => [plain]
    | paths => paths
  else [plain]

def expandWords (run : Substitute) (s : State) : List Word → State × Option (List String)
  | [] => (s, some [])
  | w :: ws =>
    match expandPieces run (wordDepth w) s w with
    | (s, none) => (s, none)
    | (s, some parts) =>
      let args := (fieldsFrom none parts).flatMap (fieldArguments s)
      match expandWords run s ws with
      | (s, none) => (s, none)
      | (s, some rest) => (s, some (args ++ rest))

/-- The one text that a word stands for, marked where quoted. -/
def expandField (run : Substitute) (s : State) (w : Word) : State × Option Field :=
  match expandPieces run (wordDepth w) s w with
  | (s, none) => (s, none)
  | (s, some parts) => (s, some (joined parts))

def expandText (run : Substitute) (s : State) (w : Word) : State × Option String :=
  match expandField run s w with
  | (s, none) => (s, none)
  | (s, some f) => (s, some (String.ofList (fieldText f)))

end BuildPlan.Shell
