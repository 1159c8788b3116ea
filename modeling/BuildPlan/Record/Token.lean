import BuildPlan.Json.Escape
import BuildPlan.Json.Reader
import BuildPlan.Record.Basic
import BuildPlan.Text.Hex
import BuildPlan.Text.Quoted
import BuildPlan.Text.Utf8

/-!
# Records as tokens

A token is the compact JSON form of a record in hexadecimal, so that neither a manifest nor a shell
finds anything special in it. Reading a token takes blanks around it, members in any order and
members that it does not know.
-/

namespace BuildPlan

/-- Why a token is no record that can be used. -/
inductive TokenError where
  | notHex (reason : Text.HexError)
  | notUtf8
  | malformed
  | laterSchema (found : UInt32)
  deriving DecidableEq, Repr

namespace TokenError

/-- A flaw of the hexadecimal form in words. -/
def hexReason : Text.HexError → String
  | .oddLength => "Odd number of digits"
  | .badDigit byte position =>
    "Invalid character " ++ Text.quotedChar (Char.ofNat byte.toNat) ++ " at position " ++
      Nat.repr position

def message : TokenError → String
  | notHex reason => "metadata token is not valid hex: " ++ hexReason reason
  | notUtf8 => "metadata token does not decode to UTF-8"
  | malformed => "metadata record is malformed"
  | laterSchema found =>
    "metadata record has schema " ++ Nat.repr found.toNat ++
      ", this runner understands up to " ++ Nat.repr TestRecord.currentSchema.toNat

end TokenError

namespace RequiredStatus

def toJson : RequiredStatus → String
  | exit code => "\x7b\"Exit\":\x7b\"code\":" ++ Text.showInt code.toInt ++ "\x7d\x7d"
  | noCrash => "\"NoCrash\""

/-- The exit code that a JSON value stands for. -/
def codeOfJson? : Json → Option Int32
  | .integer n => Text.toInt32? n
  | _ => none

/-- The status that a JSON value stands for. -/
def ofJson? : Json → Option RequiredStatus
  | .string "NoCrash" => some noCrash
  | .object [("Exit", .object members)] => (Json.member? codeOfJson? "code" members).map exit
  | _ => none

end RequiredStatus

namespace TestRecord

def toJson (r : TestRecord) : String :=
  "\x7b\"schema\":" ++ Nat.repr r.schema.toNat ++ ",\"run\":" ++ Json.writeText r.arguments ++
    ",\"ret\":" ++ r.status.toJson ++ ",\"txt\":" ++ Json.writeText r.output ++ "\x7d"

/-- The version that a JSON value stands for. -/
def schemaOfJson? : Json → Option UInt32
  | .integer n => if 0 ≤ n ∧ n < 4294967296 then some (UInt32.ofNat n.toNat) else none
  | _ => none

def textOfJson? : Json → Option String
  | .string s => some s
  | _ => none

/-- The record that a JSON value stands for. -/
def ofJson? : Json → Option TestRecord
  | .object members => do
    let schema ← Json.member? schemaOfJson? "schema" members
    let arguments ← Json.member? textOfJson? "run" members
    let status ← Json.member? RequiredStatus.ofJson? "ret" members
    let output ← Json.member? textOfJson? "txt" members
    pure ⟨schema, arguments, status, output⟩
  | _ => none

def token (r : TestRecord) : String :=
  Text.toHex (Text.toUtf8 r.toJson)

def ofToken (token : String) : Except TokenError TestRecord :=
  match Text.ofHex (Text.toUtf8 (String.ofList (Text.trim token.toList))) with
  | .error reason => .error (.notHex reason)
  | .ok bytes =>
    match Text.ofUtf8? bytes with
    | none => .error .notUtf8
    | some json =>
      match (Json.parse? json).bind ofJson? with
      | none => .error .malformed
      | some record =>
        if record.schema > currentSchema then .error (.laterSchema record.schema)
        else .ok record

end TestRecord

end BuildPlan
