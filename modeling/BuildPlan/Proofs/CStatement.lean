import BuildPlan.Proofs.CSource

/-!
# C statements

The grammar of functions that take no arguments: declarations with what their variables start with,
calls, assignments, guards, blocks, and jumps to a label. An operand is a name, a constant, a string
literal or the address of a variable. A constant of C has no sign: a minus sign is applied to it, and
leaves its type as it is.

A text whose statements are the same in front of any others can be put there piece by piece
(`Lists.append`).
-/

namespace BuildPlan.CSource

/-! ## Integer constants -/

/-- The types that decimal constants have. -/
inductive IntType where
  | int
  | long
  deriving DecidableEq, Repr

/-- The greatest value of the type: an `int` has 32 bits, and a `long` has 64. -/
def IntType.greatest : IntType → Nat
  | int => 2147483647
  | long => 9223372036854775807

def IntType.Has (t : IntType) (n : Int) : Prop :=
  -(t.greatest : Int) - 1 ≤ n ∧ n ≤ t.greatest

instance (t : IntType) (n : Int) : Decidable (t.Has n) :=
  inferInstanceAs (Decidable (_ ∧ _))

/-- An expression by its type and its value. -/
structure Typed where
  type : IntType
  value : Int
  deriving DecidableEq, Repr

/-- A decimal constant: its type is the first one that has its value. -/
def decimalConstant? (n : Nat) : Option Typed :=
  ([IntType.int, .long].find? fun t => decide (t.Has n)).map fun t => ⟨t, n⟩

/-- The expression behind a minus sign, which keeps its type. -/
def Typed.negated? (e : Typed) : Option Typed :=
  if e.type.Has (-e.value) then some ⟨e.type, -e.value⟩ else none

def decimalConstant : Parser Typed := fun ts =>
  (number ts).bind fun r => (decimalConstant? r.1).map fun e => (e, r.2)

/-- A decimal constant, with a minus sign applied to it or without. -/
def integer : Parser Typed
  | .sign '-' :: ts => (decimalConstant ts).bind fun r => r.1.negated?.map fun e => (e, r.2)
  | ts => decimalConstant ts

/-- An integer with the type of its digits. -/
def typed (n : Int) : Typed :=
  ⟨if n.natAbs ≤ IntType.int.greatest then .int else .long, n⟩

theorem decimalConstant?_eq {n : Nat} (h : n ≤ IntType.long.greatest) :
    decimalConstant? n = some (typed n) := by
  have hhas : ∀ t : IntType, t.Has n ↔ n ≤ t.greatest := by
    intro t
    rw [IntType.Has]
    omega
  rw [decimalConstant?, typed, Int.natAbs_natCast]
  split_ifs with hn
  · rw [List.find?_cons_of_pos (by simpa using (hhas .int).mpr hn), Option.map_some]
  · rw [List.find?_cons_of_neg (by simpa using mt (hhas .int).mp hn),
      List.find?_cons_of_pos (by simpa using (hhas .long).mpr h), Option.map_some]

theorem negated?_typed {n : Nat} (h : n ≤ IntType.long.greatest) :
    (typed n).negated? = some (typed (-n)) := by
  have hhas : (typed n).type.Has (-n) := by
    rw [typed, Int.natAbs_natCast, IntType.Has]
    split_ifs
    all_goals
      dsimp only
      omega
  rw [Typed.negated?, if_pos (show (typed n).type.Has (-(typed n).value) from hhas)]
  simp only [typed, Int.natAbs_neg]

theorem decimalConstant_repr {n : Nat} (h : n ≤ IntType.long.greatest) (ts : List Token) :
    decimalConstant (.word (Nat.repr n).toList :: ts) = some (typed n, ts) := by
  rw [decimalConstant, number_repr, Option.bind_some, decimalConstant?_eq h, Option.map_some]

/-- The tokens of an integer: a sign, if it has one, and its digits. -/
def integerTokens : Int → List Token
  | .ofNat m => [.word (Nat.repr m).toList]
  | .negSucc m => [.sign '-', .word (Nat.repr (m + 1)).toList]

theorem reads_integer_append {t : String} {ts : List Token} (n : Int) (ht : Reads t ts)
    (hopens : Opens endsWord t) : Reads (Text.showInt n ++ t) (integerTokens n ++ ts) := by
  cases n with
  | ofNat m => exact reads_repr_append m ht hopens
  | negSucc m =>
    have hminus : Reads "-" [.sign '-'] := by decide
    rw [Text.showInt, String.append_assoc]
    exact hminus.append (reads_repr_append (m + 1) ht hopens)

/-- **An integer has the type of its digits**, the sign being no part of them. -/
theorem integer_integerTokens {n : Int} (hn : n.natAbs ≤ IntType.long.greatest) (ts : List Token) :
    integer (integerTokens n ++ ts) = some (typed n, ts) := by
  cases n with
  | ofNat m => exact decimalConstant_repr hn ts
  | negSucc m =>
    have hm : m + 1 ≤ IntType.long.greatest := hn
    show (decimalConstant (.word (Nat.repr (m + 1)).toList :: ts)).bind _ = _
    rw [decimalConstant_repr hm, Option.bind_some, negated?_typed hm]
    rfl

theorem yields_integer {β : Type} {b : β} {t : String} {f : Typed → Parser β} {n : Int}
    (hn : n.natAbs ≤ IntType.long.greatest) (hf : Yields (f (typed n)) t b)
    (hopens : Opens endsWord t) : Yields (integer >>= f) (Text.showInt n ++ t) b := by
  obtain ⟨ts, ht, hf⟩ := hf
  refine ⟨_, reads_integer_append n ht hopens, fun rest => ?_⟩
  rw [List.append_assoc]
  show (integer (integerTokens n ++ (ts ++ rest))).bind (fun r => f r.1 r.2) = _
  rw [integer_integerTokens hn, Option.bind_some, hf]

/-! ## Syntax -/

inductive Operand where
  | name (name : String)
  | integer (constant : Typed)
  /-- A string literal, without the NUL behind it. -/
  | text (bytes : Bytes)
  /-- The address of a variable. -/
  | address (name : String)
  deriving DecidableEq, Repr

inductive Expression where
  | operand (operand : Operand)
  | call (function : String) (args : List Operand)
  /-- A call of what a pointer leads to, as a function of the type of `main`. -/
  | callMain (pointer : String) (args : List Operand)
  deriving DecidableEq, Repr

inductive Condition where
  | not (value : Expression)
  | differs (left right : Operand)
  deriving DecidableEq, Repr

inductive Statement where
  /-- An array of characters. -/
  | characters (name : String) (bytes : Bytes)
  /-- An array of pointers. -/
  | pointers (name : String) (items : List Operand)
  /-- A structure by its fields. -/
  | record (name : String) (fields : List (String × Operand))
  | declare (name : String) (value : Expression)
  | assign (name : String) (value : Expression)
  | evaluate (value : Expression)
  | goto (label : String)
  | label (name : String)
  | giveBack (value : Operand)
  | block (body : List Statement)
  | guard (condition : Condition) (body : List Statement)
  deriving Repr

/-! ## Grammar -/

def isNumeral (w : List Char) : Bool :=
  w.head?.any Char.isDigit

def operand : Parser Operand
  | .string bytes :: ts => some (.text bytes, ts)
  | .sign '&' :: .word w :: ts => some (.address (String.ofList w), ts)
  | .word w :: ts =>
    if isNumeral w then (integer (.word w :: ts)).map fun r => (.integer r.1, r.2)
    else some (.name (String.ofList w), ts)
  | ts => (integer ts).map fun r => (.integer r.1, r.2)

/-- What a reader takes, if it takes tokens at all: fewer are left, so that readings one behind the
other come to an end. -/
def taking {α : Type} (p : Parser α) (ts : List Token) :
    Option (α × {rest : List Token // rest.length < ts.length}) :=
  (p ts).bind fun r => if h : r.2.length < ts.length then some (r.1, ⟨r.2, h⟩) else none

/-- Operands with commas between them, up to a sign that closes them. -/
def operandsTo (close : Char) (ts : List Token) : Option (List Operand × List Token) :=
  match taking operand ts with
  | some (first, ⟨.sign c :: ts, _⟩) =>
    if c = close then some ([first], ts)
    else if c = ',' then (operandsTo close ts).map fun r => (first :: r.1, r.2)
    else none
  | _ => none
termination_by ts.length
decreasing_by
  simp only [List.length_cons] at *
  omega

def expression : Parser Expression
  | .sign '(' :: ts => do
    let (_, ts) ← expect "(int (*)(int, char**))" ts
    match ts with
    | .word w :: .sign ')' :: .sign '(' :: ts => do
      let (args, ts) ← operandsTo ')' ts
      return (.callMain (String.ofList w) args, ts)
    | _ => none
  | .word w :: .sign '(' :: ts => do
    let (args, ts) ← operandsTo ')' ts
    return (.call (String.ofList w) args, ts)
  | ts => do
    let (value, ts) ← operand ts
    return (.operand value, ts)

def condition : Parser Condition
  | .sign '!' :: ts => do
    let (value, ts) ← expression ts
    return (.not value, ts)
  | ts => do
    let (left, ts) ← operand ts
    match ts with
    | .sign '!' :: .sign '=' :: ts => do
      let (right, ts) ← operand ts
      return (.differs left right, ts)
    | _ => none

/-- A field of a structure, with a comma behind it. -/
def field : Parser (String × Operand)
  | .sign '.' :: .word x :: .sign '=' :: ts => do
    let (value, ts) ← operand ts
    let (_, ts) ← expect "," ts
    return ((String.ofList x, value), ts)
  | _ => none

def fields (ts : List Token) : List (String × Operand) × List Token :=
  match taking field ts with
  | some (first, ⟨ts, _⟩) => (first :: (fields ts).1, (fields ts).2)
  | none => ([], ts)
termination_by ts.length

/-- A value up to the semicolon. -/
def valueOf (f : Expression → Statement) (ts : List Token) : Option (Statement × List Token) :=
  match expression ts with
  | some (value, .sign ';' :: ts) => some (f value, ts)
  | _ => none

/-- What stands between the braces of an array, the last of them included. -/
def arrayItems (name : String) (pointer : Bool) (ts : List Token) :
    Option (Statement × List Token) :=
  if pointer then do
    let (items, ts) ← operandsTo '\x7d' ts
    return (.pointers name items, ts)
  else do
    let (bytes, ts) ← constants ts
    let (_, ts) ← expect "\x7d" ts
    return (.characters name bytes, ts)

def initialiser (name : String) (pointer : Bool) : Parser Statement
  | .sign '[' :: .sign ']' :: .sign '=' :: .sign '\x7b' :: ts => do
    let (statement, ts) ← arrayItems name pointer ts
    let (_, ts) ← expect ";" ts
    return (statement, ts)
  | .sign '=' :: .sign '\x7b' :: ts => do
    let (_, rest) ← expect "\x7d;" (fields ts).2
    return (.record name (fields ts).1, rest)
  | .sign '=' :: ts => valueOf (.declare name) ts
  | _ => none

def types : List String :=
  ["char", "int", "void", "DyibiccContext", "DyibiccEnviromentData"]

/-- A declaration behind its type. -/
def declarator : Parser Statement
  | .sign '*' :: .word name :: ts => initialiser (String.ofList name) true ts
  | .word name :: ts => initialiser (String.ofList name) false ts
  | _ => none

/-- A statement that starts with a word and has no other statements in it. -/
def simpleFrom (first : String) (ts : List Token) : Option (Statement × List Token) :=
  if first = "static" ∨ first = "const" then
    match ts with
    | .word type :: ts => if String.ofList type ∈ types then declarator ts else none
    | _ => none
  else if first ∈ types then declarator ts
  else if first = "goto" then
    match ts with
    | .word label :: .sign ';' :: ts => some (.goto (String.ofList label), ts)
    | _ => none
  else if first = "return" then
    match operand ts with
    | some (value, .sign ';' :: ts) => some (.giveBack value, ts)
    | _ => none
  else
    match ts with
    | .sign ':' :: ts => some (.label first, ts)
    | .sign '=' :: ts => valueOf (.assign first) ts
    | ts => valueOf .evaluate (.word first.toList :: ts)

/-- A statement that has no other statements in it. -/
def simple : Parser Statement
  | .word w :: ts => if w = "if".toList then none else simpleFrom (String.ofList w) ts
  | _ => none

/-- The start of a statement around others, and how it is made of them. -/
def opening : Parser (List Statement → Statement)
  | .sign '\x7b' :: ts => some (.block, ts)
  | ts => do
    let (_, ts) ← expect "if (" ts
    let (asked, ts) ← condition ts
    let (_, ts) ← expect ") \x7b" ts
    return (.guard asked, ts)

def statements (ts : List Token) : Option (List Statement × List Token) :=
  match taking simple ts with
  | some (first, ⟨ts, _⟩) => (statements ts).map fun r => (first :: r.1, r.2)
  | none =>
    match taking opening ts with
    | some (around, ⟨inner, _⟩) => do
      let (body, rest) ← statements inner
      let (_, rest) ← expect "\x7d" rest
      if rest.length < ts.length then
        (statements rest).map fun r => (around body :: r.1, r.2)
      else none
    | none => some ([], ts)
termination_by ts.length

/-- The body of a main function without arguments. -/
def mainFunction : Parser (List Statement) := do
  expect "int main(void) \x7b"
  let body ← statements
  expect "\x7d"
  return body

/-! ## Operands by their tokens -/

theorem taking_append {α : Type} {p : Parser α} {a : α} {ts : List Token} (hnil : p [] = none)
    (h : ∀ rest, p (ts ++ rest) = some (a, rest)) (rest : List Token) :
    ∃ hlt, taking p (ts ++ rest) = some (a, ⟨rest, hlt⟩) := by
  have hlt : rest.length < (ts ++ rest).length := by
    cases ts with
    | nil => cases hnil.symm.trans (h [])
    | cons t ts =>
      rw [List.length_append, List.length_cons]
      omega
  refine ⟨hlt, ?_⟩
  rw [taking, h, Option.bind_some, dif_pos hlt]

theorem taking_eq_none {α : Type} {p : Parser α} {ts : List Token} (h : p ts = none) :
    taking p ts = none := by
  rw [taking, h, Option.bind_none]

section Operands

variable {close : Char} {ts rest : List Token} {o : Operand} {os : List Operand}

def Operand.tokens : Operand → List Token
  | name x => [.word x.toList]
  | integer e => integerTokens e.value
  | text bytes => [.string bytes]
  | address x => [.sign '&', .word x.toList]

/-- The operand is read back from its tokens: a name is no number, and an integer has the type of
its digits. -/
def Operand.Proper : Operand → Prop
  | name x => isNumeral x.toList = false
  | integer e => e.value.natAbs ≤ IntType.long.greatest ∧ e = typed e.value
  | _ => True

theorem operand_integerTokens {n : Int} (hn : n.natAbs ≤ IntType.long.greatest)
    (ts : List Token) : operand (integerTokens n ++ ts) = some (.integer (typed n), ts) := by
  have hread := integer_integerTokens hn ts
  cases n with
  | ofNat m =>
    have hnumeral : isNumeral (Nat.repr m).toList = true := by
      obtain ⟨d, ds, hds, hdigit⟩ := Text.exists_cons_toDigits m
      rw [isNumeral, Nat.toList_repr, hds, List.head?_cons, Option.any_some, hdigit]
    show operand (.word (Nat.repr m).toList :: ts) = _
    rw [operand, if_pos hnumeral]
    exact (congrArg _ hread).trans rfl
  | negSucc m => exact (congrArg (Option.map fun r => (Operand.integer r.1, r.2)) hread).trans rfl

theorem operand_tokens (h : o.Proper) (ts : List Token) :
    operand (o.tokens ++ ts) = some (o, ts) := by
  cases o with
  | name x =>
    have hname : isNumeral x.toList = false := h
    show operand (.word x.toList :: ts) = _
    rw [operand, hname, if_neg Bool.false_ne_true, String.ofList_toList]
  | integer e =>
    obtain ⟨hlong, htyped⟩ := h
    rw [Operand.tokens, operand_integerTokens hlong, ← htyped]
  | text bytes => rfl
  | address x =>
    show some (Operand.address (String.ofList x.toList), ts) = _
    rw [String.ofList_toList]

/-- The tokens of operands with commas between them. -/
def operandTokens : List Operand → List Token
  | [] => []
  | [o] => o.tokens
  | o :: os => o.tokens ++ .sign ',' :: operandTokens os

theorem operandsTo_operandTokens (close : Char) (hclose : close ≠ ',') (hos : ∀ o ∈ os, o.Proper)
    (hne : os ≠ []) (rest : List Token) :
    operandsTo close (operandTokens os ++ .sign close :: rest) = some (os, rest) := by
  induction os with
  | nil => exact absurd rfl hne
  | cons o os ih =>
    obtain ⟨ho, hos⟩ := List.forall_mem_cons.mp hos
    have htake := taking_append rfl (operand_tokens ho)
    cases os with
    | nil =>
      obtain ⟨_, htake⟩ := htake (.sign close :: rest)
      rw [operandTokens, operandsTo, htake]
      exact if_pos rfl
    | cons o' os =>
      have hcons := List.cons_ne_nil o' os
      obtain ⟨_, htake⟩ := htake (.sign ',' :: (operandTokens (o' :: os) ++ .sign close :: rest))
      rw [operandTokens, List.append_assoc, List.cons_append, operandsTo, htake]
      · simp only [if_neg hclose.symm, if_true, ih hos hcons, Option.map_some]
      · exact hcons

theorem expression_operand (h : o.Proper) {c : Char} (hc : c ≠ '(') (ts : List Token) :
    expression (o.tokens ++ .sign c :: ts) = some (.operand o, .sign c :: ts) := by
  have hread := operand_tokens h (.sign c :: ts)
  have hrest : expression (o.tokens ++ .sign c :: ts) =
      (operand (o.tokens ++ .sign c :: ts)).bind fun r => some (.operand r.1, r.2) := by
    cases o with
    | name x =>
      show expression (.word x.toList :: .sign c :: ts) = _
      rw [expression]
      · rfl
      · simp
      · rintro w ts' hcons
        exact hc (Token.sign.inj (List.cons.inj (List.cons.inj hcons).2).1)
    | integer e =>
      cases hvalue : e.value <;> simp [Operand.tokens, hvalue, integerTokens, expression, hc]
    | text bytes => rfl
    | address x => rfl
  rw [hrest, hread]
  rfl

theorem expression_call (f : String) (os : List Operand) (hos : ∀ o ∈ os, o.Proper) (hne : os ≠ [])
    (ts : List Token) :
    expression (.word f.toList :: .sign '(' :: (operandTokens os ++ .sign ')' :: ts)) =
      some (.call f os, ts) := by
  simp [expression, operandsTo_operandTokens ')' (by decide) hos hne]

theorem expression_callMain (pointer : String) (os : List Operand) {cast : List Token}
    (hcast : tokens? "(int (*)(int, char**))" = some cast) (hos : ∀ o ∈ os, o.Proper)
    (hne : os ≠ []) (ts : List Token) :
    expression (.sign '(' :: (cast ++ .word pointer.toList :: .sign ')' :: .sign '(' ::
      (operandTokens os ++ .sign ')' :: ts))) = some (.callMain pointer os, ts) := by
  have hargs := operandsTo_operandTokens ')' (by decide) hos hne ts
  rw [expression, expect_append hcast]
  simp only [Option.bind_eq_bind, Option.bind_some, hargs, String.ofList_toList]
  rfl

theorem condition_not {value : Expression} (h : expression ts = some (value, rest)) :
    condition (.sign '!' :: ts) = some (.not value, rest) := by
  rw [condition, h]
  rfl

theorem condition_differs {x : String} (hx : (Operand.name x).Proper) (ho : o.Proper)
    (ts : List Token) :
    condition (.word x.toList :: .sign '!' :: .sign '=' :: (o.tokens ++ ts)) =
      some (.differs (.name x) o, ts) := by
  have hleft : operand (.word x.toList :: .sign '!' :: .sign '=' :: (o.tokens ++ ts)) =
      some (.name x, .sign '!' :: .sign '=' :: (o.tokens ++ ts)) := operand_tokens hx _
  have hright := operand_tokens ho ts
  rw [condition]
  · simp only [hleft, Option.bind_eq_bind, Option.bind_some, hright]
    rfl
  · rintro ts' h
    cases h

/-- The words that start a statement of their own. -/
def leading : List String :=
  ["static", "const", "goto", "return"] ++ types

/-- A call that stands for itself is none of the statements that start with a word of their own. -/
theorem simple_call (f : String) (os : List Operand) (hif : f ≠ "if") (hf : f ∉ leading)
    (hos : ∀ o ∈ os, o.Proper) (hne : os ≠ []) (ts : List Token) :
    simple (.word f.toList :: .sign '(' :: (operandTokens os ++ .sign ')' :: .sign ';' :: ts)) =
      some (.evaluate (.call f os), ts) := by
  have hcall := expression_call f os hos hne (.sign ';' :: ts)
  simp only [leading, List.mem_append, List.mem_cons, List.not_mem_nil, or_false, not_or] at hf
  obtain ⟨⟨hstatic, hconst, hgoto, hreturn⟩, htype⟩ := hf
  rw [simple, if_neg fun h => hif (String.toList_inj.mp h), String.ofList_toList]
  simp [simpleFrom, hstatic, hconst, htype, hgoto, hreturn, valueOf, hcall]

theorem simple_assign (x : String) {value : Expression} (hif : x ≠ "if") (hx : x ∉ leading)
    (h : expression ts = some (value, .sign ';' :: rest)) :
    simple (.word x.toList :: .sign '=' :: ts) = some (.assign x value, rest) := by
  simp only [leading, List.mem_append, List.mem_cons, List.not_mem_nil, or_false, not_or] at hx
  obtain ⟨⟨hstatic, hconst, hgoto, hreturn⟩, htype⟩ := hx
  rw [simple, if_neg fun h => hif (String.toList_inj.mp h), String.ofList_toList]
  simp [simpleFrom, hstatic, hconst, htype, hgoto, hreturn, valueOf, h]

theorem simple_declared (type : String) {first : Statement} (htype : type ∈ types)
    (h : declarator ts = some (first, rest)) :
    simple (.word type.toList :: ts) = some (first, rest) := by
  have hwords : type ≠ "if" ∧ type ≠ "static" ∧ type ≠ "const" := by
    revert type
    decide
  obtain ⟨hif, hstatic, hconst⟩ := hwords
  rw [simple, if_neg fun h => hif (String.toList_inj.mp h), String.ofList_toList]
  simp [simpleFrom, hstatic, hconst, htype, h]

theorem simple_qualified (word type : String) {first : Statement}
    (hword : word = "static" ∨ word = "const") (htype : type ∈ types)
    (h : declarator ts = some (first, rest)) :
    simple (.word word.toList :: .word type.toList :: ts) = some (first, rest) := by
  have hif : word ≠ "if" := by
    rcases hword with rfl | rfl <;> decide
  rw [simple, if_neg fun h => hif (String.toList_inj.mp h), String.ofList_toList]
  simp [simpleFrom, hword, htype, h]

theorem initialiser_value (x : String) (pointer : Bool) {value : Expression}
    (hopen : ts.head? ≠ some (.sign '\x7b'))
    (h : expression ts = some (value, .sign ';' :: rest)) :
    initialiser x pointer (.sign '=' :: ts) = some (.declare x value, rest) := by
  rw [initialiser, valueOf, h]
  · rfl
  · rintro ts' rfl
    exact hopen rfl

theorem initialiser_pointers (x : String) (os : List Operand) (hos : ∀ o ∈ os, o.Proper)
    (hne : os ≠ []) (ts : List Token) :
    initialiser x true (.sign '[' :: .sign ']' :: .sign '=' :: .sign '\x7b' ::
      (operandTokens os ++ .sign '\x7d' :: .sign ';' :: ts)) = some (.pointers x os, ts) := by
  have hitems := operandsTo_operandTokens '\x7d' (by decide) hos hne (.sign ';' :: ts)
  have hend : expect ";" (.sign ';' :: ts) = some ((), ts) := rfl
  simp [initialiser, arrayItems, hitems, hend]

theorem initialiser_characters (x : String) (bytes : Bytes) (last : UInt8) (ts : List Token) :
    initialiser x false (.sign '[' :: .sign ']' :: .sign '=' :: .sign '\x7b' ::
      (constantTokens bytes last ++ .sign '\x7d' :: .sign ';' :: ts)) =
      some (.characters x (bytes ++ [last]), ts) := by
  have hbytes := listed_constantTokens bytes last (c := '\x7d') (by decide) (.sign ';' :: ts)
  have hclose : expect "\x7d" (.sign '\x7d' :: .sign ';' :: ts) = some ((), .sign ';' :: ts) := rfl
  simp only [initialiser, arrayItems, constants, hbytes, hclose, Bool.false_eq_true, if_false,
    Option.bind_eq_bind, Option.bind_some]
  rfl

/-- The tokens of a field. -/
def fieldTokens (f : String × Operand) : List Token :=
  [.sign '.', .word f.1.toList, .sign '='] ++ f.2.tokens ++ [.sign ',']

theorem fields_flatMap {fs : List (String × Operand)} (hfs : ∀ f ∈ fs, f.2.Proper)
    (ts : List Token) : fields (fs.flatMap fieldTokens ++ .sign '\x7d' :: ts) =
      (fs, .sign '\x7d' :: ts) := by
  induction fs with
  | nil =>
    rw [List.flatMap_nil, List.nil_append, fields, taking_eq_none rfl]
  | cons f fs ih =>
    obtain ⟨hf, hfs⟩ := List.forall_mem_cons.mp hfs
    have hfield : ∀ rest, field (fieldTokens f ++ rest) = some (f, rest) := by
      intro rest
      have hcomma : expect "," (.sign ',' :: rest) = some ((), rest) := rfl
      simp [fieldTokens, field, operand_tokens hf, hcomma]
    obtain ⟨_, htake⟩ := taking_append rfl hfield
      (fs.flatMap fieldTokens ++ .sign '\x7d' :: ts)
    rw [List.flatMap_cons, List.append_assoc, fields, htake]
    simp only [ih hfs]

theorem initialiser_record (x : String) (fs : List (String × Operand))
    (hfs : ∀ f ∈ fs, f.2.Proper) (ts : List Token) :
    initialiser x false (.sign '=' :: .sign '\x7b' ::
      (fs.flatMap fieldTokens ++ .sign '\x7d' :: .sign ';' :: ts)) = some (.record x fs, ts) := by
  have hend : expect "\x7d;" (.sign '\x7d' :: .sign ';' :: ts) = some ((), ts) := rfl
  simp only [initialiser, fields_flatMap hfs, hend, Option.bind_eq_bind, Option.bind_some]
  rfl

end Operands

/-! ## Statements piece by piece -/

section Statements

variable {s t : String} {ss us : List Statement} {ts : List Token} {first : Statement}

/-- The text has those statements, and behind them any others that follow it. -/
def Lists (s : String) (ss : List Statement) : Prop :=
  ∃ ts, Reads s ts ∧
    ∀ rest, statements (ts ++ rest) = (statements rest).map fun r => (ss ++ r.1, r.2)

theorem lists_empty : Lists "" [] :=
  ⟨[], reads_empty, fun rest => by simp⟩

theorem Lists.append (hs : Lists s ss) (ht : Lists t us) : Lists (s ++ t) (ss ++ us) := by
  obtain ⟨ts, hs, hss⟩ := hs
  obtain ⟨vs, ht, hus⟩ := ht
  refine ⟨ts ++ vs, hs.append ht, fun rest => ?_⟩
  rw [List.append_assoc, hss, hus, Option.map_map]
  simp [Function.comp_def]

theorem Lists.of_blanks {blanks : String} (hblanks : Reads blanks []) (h : Lists s ss) :
    Lists (blanks ++ s) ss := by
  obtain ⟨ts, hs, hss⟩ := h
  exact ⟨ts, hblanks.append hs, hss⟩

theorem lists_simple (hs : Reads s ts) (h : ∀ rest, simple (ts ++ rest) = some (first, rest)) :
    Lists s [first] := by
  refine ⟨ts, hs, fun rest => ?_⟩
  obtain ⟨_, htake⟩ := taking_append rfl h rest
  rw [statements, htake]
  rfl

theorem statements_close (ts : List Token) :
    statements (.sign '\x7d' :: ts) = some ([], .sign '\x7d' :: ts) := by
  rw [statements, taking_eq_none rfl, taking_eq_none rfl]

theorem lists_around {start close : String} {around : List Statement → Statement}
    (hstart : Reads start ts) (hsimple : ∀ rest, simple (ts ++ rest) = none)
    (hopening : ∀ rest, opening (ts ++ rest) = some (around, rest)) (hbody : Lists s ss)
    (hclose : Reads close [.sign '\x7d']) : Lists (start ++ (s ++ close)) [around ss] := by
  obtain ⟨us, hs, hss⟩ := hbody
  refine ⟨ts ++ (us ++ [.sign '\x7d']), hstart.append (hs.append hclose), fun rest => ?_⟩
  have hexpect : expect "\x7d" (.sign '\x7d' :: rest) = some ((), rest) := rfl
  have hlt : rest.length < (ts ++ (us ++ .sign '\x7d' :: rest)).length := by
    simp only [List.length_append, List.length_cons]
    omega
  obtain ⟨_, htake⟩ := taking_append rfl hopening (us ++ .sign '\x7d' :: rest)
  rw [List.append_assoc, List.append_assoc, List.singleton_append, statements,
    taking_eq_none (hsimple _), htake]
  simp only [Option.bind_eq_bind, hss, statements_close, Option.map_some, List.append_nil,
    Option.bind_some, hexpect, if_pos hlt]
  rfl

theorem lists_guard {indent text : String} {asked : Condition} (hindent : Reads indent [])
    (htext : Reads (text ++ ") \x7b\n") (ts ++ [.sign ')', .sign '\x7b']))
    (hasked : ∀ rest, condition (ts ++ .sign ')' :: rest) = some (asked, .sign ')' :: rest))
    (hbody : Lists s ss) :
    Lists ((indent ++ ("if (" ++ (text ++ ") \x7b\n"))) ++ (s ++ (indent ++ "\x7d\n")))
      [.guard asked ss] := by
  have hif : Reads "if (" [.word "if".toList, .sign '('] := by decide
  have hclose : Reads "\x7d\n" [.sign '\x7d'] := by decide
  have hstart : ∀ us, expect "if (" (.word "if".toList :: .sign '(' :: us) = some ((), us) :=
    fun _ => rfl
  have hopen : ∀ us, expect ") \x7b" (.sign ')' :: .sign '\x7b' :: us) = some ((), us) :=
    fun _ => rfl
  refine lists_around (hindent.append (hif.append htext)) (fun rest => ?_) (fun rest => ?_) hbody
    (hindent.append hclose)
  · show simple (.word "if".toList :: .sign '(' :: (ts ++ [.sign ')', .sign '\x7b'] ++ rest)) = none
    rw [simple, if_pos rfl]
  · show opening (.word "if".toList :: .sign '(' :: (ts ++ [.sign ')', .sign '\x7b'] ++ rest)) = _
    simp only [opening, hstart, Option.bind_eq_bind, Option.bind_some, List.append_assoc,
      List.cons_append, List.nil_append, hasked, hopen]
    rfl

theorem parse?_mainFunction {start close : String} (hstart : StandsFor start "int main(void) \x7b")
    (hbody : Lists s ss) (hclose : Reads close [.sign '\x7d']) :
    parse? mainFunction (start ++ (s ++ close)) = some ss := by
  obtain ⟨us, hs, hss⟩ := hbody
  have hend : ∀ rest, expect "\x7d" (.sign '\x7d' :: rest) = some ((), rest) := fun _ => rfl
  have hrest : Yields (do let body ← statements; expect "\x7d"; return body) (s ++ close) ss := by
    refine ⟨us ++ [.sign '\x7d'], hs.append hclose, fun rest => ?_⟩
    show (statements (us ++ [.sign '\x7d'] ++ rest)).bind (fun r =>
      (expect "\x7d" r.2).bind fun r' => some (r.1, r'.2)) = _
    rw [List.append_assoc, List.singleton_append, hss, statements_close, Option.map_some,
      Option.bind_some, hend, List.append_nil]
    rfl
  exact (hstart.then hrest).parse?_eq

end Statements

end BuildPlan.CSource
