import BuildPlan.Text.Numeral
import BuildPlan.Text.Utf8

/-!
# Formatted output

What `echo` and `printf` write. A backslash starts an escape: a letter for a control character, or
octal digits for a byte, which need not be part of a character. A format is used again as long as
there are arguments; missing ones count as empty or zero.
-/

namespace BuildPlan.Shell

def charBytes (c : Char) : Bytes :=
  Text.toUtf8 (String.ofList [c])

/-! ## Escapes -/

/-- Whether a character is an octal digit. -/
def isOctal (c : Char) : Bool :=
  '0' ≤ c && c ≤ '7'

def octalByte (digits : List Char) : UInt8 :=
  UInt8.ofNat (digits.foldl (fun n c => 8 * n + (c.toNat - '0'.toNat)) 0)

/-- The digits at the start of a text, at most `limit` of them, and what follows. -/
def octalDigits (limit : Nat) (cs : List Char) : List Char × List Char :=
  let digits := (cs.take limit).takeWhile isOctal
  (digits, cs.drop digits.length)

def letterByte? (c : Char) : Option UInt8 :=
  match c with
  | 'a' => some 7
  | 'b' => some 8
  | 'e' => some 27
  | 'f' => some 12
  | 'n' => some 10
  | 'r' => some 13
  | 't' => some 9
  | 'v' => some 11
  | '\\' => some 92
  | _ => none

/-- The byte of the escape behind a backslash, and what follows it. -/
def escape? (cs : List Char) : Option (UInt8 × List Char) :=
  match cs with
  | [] => none
  | c :: rest =>
    match letterByte? c with
    | some b => some (b, rest)
    | none =>
      if isOctal c then
        let (digits, rest) := octalDigits 3 cs
        some (octalByte digits, rest)
      else none

/-- A text with escapes as bytes, and whether it ends the output. A zero may stand before three
octal digits. -/
def unescaped : (fuel : Nat) → List Char → Bytes × Bool
  | 0, _ => ([], false)
  | _ + 1, [] => ([], false)
  | _ + 1, '\\' :: 'c' :: _ => ([], true)
  | fuel + 1, '\\' :: '0' :: cs =>
    let (digits, rest) := octalDigits 3 cs
    let (out, stop) := unescaped fuel rest
    (octalByte digits :: out, stop)
  | fuel + 1, c :: cs =>
    match (if c = '\\' then escape? cs else none) with
    | some (b, rest) =>
      let (out, stop) := unescaped fuel rest
      (b :: out, stop)
    | none =>
      let (out, stop) := unescaped fuel cs
      (charBytes c ++ out, stop)

/-- The bytes of a text with escapes, and whether it ends the output. -/
def unescape (s : String) : Bytes × Bool :=
  unescaped (s.length + 1) s.toList

def echoBytes (args : List String) : Bytes :=
  let (newline, args) := match args with
    | "-n" :: rest => (false, rest)
    | args => (true, args)
  let (out, stop) := unescape (" ".intercalate args)
  out ++ if newline && !stop then [10] else []

/-! ## Directives -/

/-- A directive of a format. -/
structure Directive where
  left : Bool := false
  zeros : Bool := false
  plus : Bool := false
  blank : Bool := false
  alternate : Bool := false
  width : Nat := 0
  precision : Option Nat := none
  deriving DecidableEq, Repr

def Directive.withFlag? (d : Directive) (c : Char) : Option Directive :=
  match c with
  | '-' => some { d with left := true }
  | '0' => some { d with zeros := true }
  | '+' => some { d with plus := true }
  | ' ' => some { d with blank := true }
  | '#' => some { d with alternate := true }
  | _ => none

def flagsOf (d : Directive) : List Char → Directive × List Char
  | [] => (d, [])
  | c :: cs =>
    match d.withFlag? c with
    | some d => flagsOf d cs
    | none => (d, c :: cs)

/-- A number at the start of a text, and what follows it. -/
def numberOf (cs : List Char) : Option Nat × List Char :=
  (Text.digits? (cs.takeWhile Char.isDigit), cs.dropWhile Char.isDigit)

/-- A number or a star for the next argument. -/
def numberOrArgument (cs : List Char) (args : List String) :
    Option Nat × List Char × List String :=
  match cs with
  | '*' :: rest => (some ((args.headD "").toNat?.getD 0), rest, args.tail)
  | cs =>
    let (n, rest) := numberOf cs
    (n, rest, args)

def directiveOf (cs : List Char) (args : List String) : Directive × List Char × List String :=
  let (d, cs) := flagsOf {} cs
  let (width, cs, args) := numberOrArgument cs args
  let d := { d with width := width.getD 0 }
  match cs with
  | '.' :: rest =>
    let (precision, cs, args) := numberOrArgument rest args
    ({ d with precision := some (precision.getD 0) }, cs, args)
  | cs => (d, cs, args)

/-- Bytes filled up to the width of a directive. -/
def Directive.pad (d : Directive) (bytes : Bytes) : Bytes :=
  let fill := List.replicate (d.width - bytes.length) (0x20 : UInt8)
  if d.left then bytes ++ fill else fill ++ bytes

/-- A number in digits, filled with zeros in front. -/
def Directive.padNumber (d : Directive) (sign digits : String) : Bytes :=
  let least := match d.precision with
    | some p => p
    | none => if d.zeros && !d.left then d.width - sign.length else 0
  let zeros := String.ofList (List.replicate (least - digits.length) '0')
  d.pad (Text.toUtf8 (sign ++ zeros ++ digits))

/-- The value of a digit, whatever the base. -/
def digitValue? (c : Char) : Option Nat :=
  if c.isDigit then some (c.toNat - '0'.toNat)
  else if 'a' ≤ c && c ≤ 'f' then some (c.toNat - 'a'.toNat + 10)
  else if 'A' ≤ c && c ≤ 'F' then some (c.toNat - 'A'.toNat + 10)
  else none

/-- The value of digits in a base, read on from `acc`. -/
def valueIn? (base acc : Nat) : List Char → Option Nat
  | [] => some acc
  | c :: cs =>
    match (digitValue? c).filter (· < base) with
    | some d => valueIn? base (base * acc + d) cs
    | none => none

/-- The number that digits stand for, in a base that their start tells. -/
def constant? : List Char → Option Nat
  | [] => none
  | '0' :: 'x' :: cs => valueIn? 16 0 cs
  | '0' :: cs => valueIn? 8 0 cs
  | cs => valueIn? 10 0 cs

/-- The integer that an argument stands for, if it is one. -/
def argumentValue? (s : String) : Option Int :=
  match s.toList.dropWhile (· = ' ') with
  | [] => some 0
  | '"' :: c :: _ => some c.toNat
  | '\x27' :: c :: _ => some c.toNat
  | '-' :: cs => (constant? cs).map fun n => -Int.ofNat n
  | '+' :: cs => (constant? cs).map Int.ofNat
  | cs => (constant? cs).map Int.ofNat

/-- The integer as an unsigned 64-bit value. -/
def unsignedValue (n : Int) : Nat :=
  (n % 0x10000000000000000).toNat

def digitsIn (base n : Nat) : String :=
  String.ofList (Nat.toDigits base n)

/-- A signed number as a directive has it. -/
def Directive.signed (d : Directive) (n : Int) : Bytes :=
  let sign := if n < 0 then "-" else if d.plus then "+" else if d.blank then " " else ""
  d.padNumber sign (digitsIn 10 n.natAbs)

/-- Whether a directive with that letter takes a number. -/
def isNumeric (letter : Char) : Bool :=
  ['d', 'i', 'u', 'o', 'x', 'X'].contains letter

/-- What a directive writes for an argument, and whether it ends the output; none where no directive
has that letter. -/
def Directive.apply? (d : Directive) (letter : Char) (arg : String) : Option (Bytes × Bool) :=
  let short (bytes : Bytes) : Bytes := match d.precision with
    | some p => bytes.take p
    | none => bytes
  let n := (argumentValue? arg).getD 0
  match letter with
  | 's' => some (d.pad (short (Text.toUtf8 arg)), false)
  | 'b' =>
    let (bytes, stop) := unescape arg
    some (d.pad (short bytes), stop)
  | 'c' => some (d.pad ((Text.toUtf8 arg).take 1), false)
  | 'd' => some (d.signed n, false)
  | 'i' => some (d.signed n, false)
  | 'u' => some (d.padNumber "" (digitsIn 10 (unsignedValue n)), false)
  | 'o' =>
    some (d.padNumber (if d.alternate then "0" else "") (digitsIn 8 (unsignedValue n)), false)
  | 'x' =>
    some (d.padNumber (if d.alternate then "0x" else "") (digitsIn 16 (unsignedValue n)), false)
  | 'X' =>
    some (d.padNumber (if d.alternate then "0X" else "") (digitsIn 16 (unsignedValue n)).toUpper,
      false)
  | _ => none

/-! ## Formats -/

/-- What is wrong with a format or its arguments. -/
inductive FormatFault where
  | none
  /-- An argument is no number. -/
  | argument
  /-- No directive has that letter. -/
  | directive
  deriving DecidableEq, Repr

def FormatFault.status : FormatFault → Nat
  | none => 0
  | argument => 1
  | directive => 2

def FormatFault.join (a b : FormatFault) : FormatFault :=
  if a.status < b.status then b else a

/-- What one use of a format gives. -/
structure Formatted where
  bytes : Bytes
  args : List String
  /-- Whether nothing more is written. -/
  stopped : Bool
  fault : FormatFault

def Formatted.behind (front : Bytes) (f : Formatted) : Formatted :=
  { f with bytes := front ++ f.bytes }

def Formatted.withFault (f : Formatted) (fault : FormatFault) : Formatted :=
  { f with fault := fault.join f.fault }

/-- Uses a format once; `fuel` bounds its length. -/
def formatOnce : (fuel : Nat) → List Char → List String → Formatted
  | 0, _, args => ⟨[], args, false, .none⟩
  | _ + 1, [], args => ⟨[], args, false, .none⟩
  | fuel + 1, c :: cs, args =>
    if c = '\\' then
      match escape? cs with
      | some (b, rest) => (formatOnce fuel rest args).behind [b]
      | none => (formatOnce fuel cs args).behind [92]
    else if c = '%' then
      if cs.head? = some '%' then (formatOnce fuel cs.tail args).behind [37]
      else
        let (d, rest, args) := directiveOf cs args
        match rest with
        | [] => ⟨[], args, true, .directive⟩
        | letter :: rest =>
          match d.apply? letter (args.headD "") with
          | none => ⟨[], args, true, .directive⟩
          | some (bytes, true) => ⟨bytes, args.tail, true, .none⟩
          | some (bytes, false) =>
            let wrong := isNumeric letter && (argumentValue? (args.headD "")).isNone
            ((formatOnce fuel rest args.tail).behind bytes).withFault
              (if wrong then .argument else .none)
    else (formatOnce fuel cs args).behind (charBytes c)

/-- Uses a format as long as there are arguments. -/
def formatAll (format : String) : (fuel : Nat) → List String → Bytes × FormatFault
  | 0, _ => ([], .none)
  | fuel + 1, args =>
    let once := formatOnce (format.length + 1) format.toList args
    if once.stopped || once.args.isEmpty || once.args.length = args.length then
      (once.bytes, once.fault)
    else
      let (more, fault) := formatAll format fuel once.args
      (once.bytes ++ more, once.fault.join fault)

/-- What `printf` writes, and what is wrong. -/
def printfBytes (format : String) (args : List String) : Bytes × FormatFault :=
  formatAll format (args.length + 1) args

end BuildPlan.Shell
