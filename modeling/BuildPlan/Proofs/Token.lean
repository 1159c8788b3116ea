import BuildPlan.Proofs.Bytes
import BuildPlan.Proofs.Json
import BuildPlan.Record.Token

/-!
# A record's token is read as the record

The JSON form of a record is an object of four members (`reads_toJson`) that stands for the record
again (`parse?_toJson`). A token holds nothing but the hexadecimal digits of that form, so blanks
around it can be told from it (`ofToken_blanks`).
-/

namespace BuildPlan

open Json (Reads ReadsMembers memberText)

/-! ## The status -/

namespace RequiredStatus

def value : RequiredStatus → Json
  | exit code => .object [("Exit", .object [("code", .integer code.toInt)])]
  | noCrash => .string "NoCrash"

theorem reads_toJson (status : RequiredStatus) : Reads 5 status.toJson.toList status.value := by
  cases status with
  | exit code =>
    have htext : (exit code).toJson.toList =
        '\x7b' :: (memberText "Exit"
          ('\x7b' :: (memberText "code" (Text.showInt code.toInt).toList ++ ['\x7d'])) ++
            ['\x7d']) := by
      unfold toJson
      simp [memberText]
    have hcode : ReadsMembers 2 (memberText "code" (Text.showInt code.toInt).toList)
        [("code", .integer code.toInt)] := .last _ (by decide) (Json.reads_showInt _)
    have hexit : ReadsMembers 4 (memberText "Exit"
        ('\x7b' :: (memberText "code" (Text.showInt code.toInt).toList ++ ['\x7d'])))
        [("Exit", .object [("code", .integer code.toInt)])] := .last _ (by decide) hcode.object
    rw [htext]
    exact hexit.object
  | noCrash =>
    have htext : noCrash.toJson = Json.writeText "NoCrash" := by decide
    rw [htext]
    exact (Json.reads_text "NoCrash").mono (by decide)

theorem ofJson?_value (status : RequiredStatus) : ofJson? status.value = some status := by
  cases status with
  | exit code =>
    have hlow := code.le_toInt
    have hhigh := code.toInt_lt
    have hcode : Text.toInt32? code.toInt = some code := by
      rw [Text.toInt32?, if_pos (by omega), Int32.ofInt_toInt]
    simp [value, ofJson?, Json.member?, codeOfJson?, hcode]
  | noCrash => rfl

end RequiredStatus

namespace TestRecord

/-! ## The record -/

/-- The members of the JSON value of a record. -/
def members (r : TestRecord) : List (String × Json) :=
  [("schema", .integer r.schema.toNat), ("run", .string r.arguments), ("ret", r.status.value),
    ("txt", .string r.output)]

theorem reads_toJson (r : TestRecord) : Reads 9 r.toJson.toList (.object r.members) := by
  have htext : r.toJson.toList =
      '\x7b' :: ((memberText "schema" (Text.showInt r.schema.toNat).toList ++
        ',' :: (memberText "run" (Json.writeText r.arguments).toList ++
        ',' :: (memberText "ret" r.status.toJson.toList ++
        ',' :: memberText "txt" (Json.writeText r.output).toList))) ++ ['\x7d']) := by
    rw [Json.showInt_natCast]
    unfold toJson
    simp [memberText]
  have houtput : ReadsMembers 5 (memberText "txt" (Json.writeText r.output).toList) _ :=
    .last _ (by decide) ((Json.reads_text r.output).mono (by decide))
  have hstatus := houtput.cons "ret" (by decide) r.status.reads_toJson
  have harguments := hstatus.cons "run" (by decide)
    ((Json.reads_text r.arguments).mono (by decide))
  have hschema := harguments.cons "schema" (by decide)
    ((Json.reads_showInt r.schema.toNat).mono (by decide))
  rw [htext]
  exact hschema.object

theorem ofJson?_members (r : TestRecord) : ofJson? (.object r.members) = some r := by
  have hrange := r.schema.toNat_lt
  have hschema : schemaOfJson? (.integer r.schema.toNat) = some r.schema := by
    rw [schemaOfJson?, if_pos (by omega), Int.toNat_natCast, UInt32.ofNat_toNat]
  simp [members, ofJson?, Json.member?, hschema, textOfJson?, RequiredStatus.ofJson?_value]

theorem le_length_toJson (r : TestRecord) : 4 ≤ r.toJson.length := by
  have hfront : "\x7b\"schema\":".length = 10 := by decide
  unfold toJson
  simp only [String.length_append]
  omega

theorem parse?_toJson (r : TestRecord) : (Json.parse? r.toJson).bind ofJson? = some r := by
  have hlength := r.le_length_toJson
  rw [Json.parse?_eq r.reads_toJson (by omega), Option.bind_some, ofJson?_members]

/-! ## The token -/

theorem token_ne_empty (r : TestRecord) : r.token ≠ "" := by
  intro h
  have hempty : Text.toHex (Text.toUtf8 "") = "" := by decide
  have hjson := Text.toUtf8_injective (Text.toHex_injective (h.trans hempty.symm))
  have hlength := r.le_length_toJson
  rw [hjson] at hlength
  exact absurd hlength (by decide)

theorem ofToken_blanks (r : TestRecord) (before after : String)
    (hbefore : ∀ c ∈ before.toList, Text.isBlank c = true)
    (hafter : ∀ c ∈ after.toList, Text.isBlank c = true) :
    ofToken (before ++ r.token ++ after) =
      if r.schema > currentSchema then .error (.laterSchema r.schema) else .ok r := by
  have htrim : String.ofList (Text.trim (before ++ r.token ++ after).toList) = r.token := by
    rw [String.toList_append, String.toList_append, Text.trim_blanks _ hbefore hafter,
      String.ofList_toList]
    exact fun c hc => Text.isBlank_of_mem_hexDigits (Text.mem_toHex hc)
  rw [ofToken, htrim, token, Text.ofHex_toHex]
  simp only [Text.ofUtf8?_toUtf8, parse?_toJson]

/-- **Tokens are read back**: a token is a non-empty, even number of hexadecimal digits, and is read
as its record, blanks around it or not, unless the record is of a later version. -/
theorem ofToken_token (r : TestRecord) :
    (r.token ≠ "" ∧ r.token.length % 2 = 0 ∧ ∀ c ∈ r.token.toList, c ∈ Text.hexDigits) ∧
      (r.schema ≤ currentSchema → ∀ before after : String,
        (∀ c ∈ before.toList, Text.isBlank c = true) →
        (∀ c ∈ after.toList, Text.isBlank c = true) →
        ofToken (before ++ r.token ++ after) = .ok r) ∧
      (currentSchema < r.schema → ofToken r.token = .error (.laterSchema r.schema)) := by
  refine ⟨⟨token_ne_empty r, ?_, fun c hc => Text.mem_toHex hc⟩, ?_, ?_⟩
  · have hlength := Text.length_toHex (Text.toUtf8 r.toJson)
    rw [token]
    omega
  · intro hschema before after hbefore hafter
    rw [ofToken_blanks r before after hbefore hafter, if_neg (UInt32.not_lt.mpr hschema)]
  · intro hschema
    have hread := ofToken_blanks r "" "" (by simp) (by simp)
    rw [if_pos hschema] at hread
    simpa using hread

theorem ofToken_token_both :
    (∀ c ∈ "\n".toList, Text.isBlank c = true) ∧ (∀ c ∈ "\u3000".toList, Text.isBlank c = true) ∧
      ofToken ("\n" ++ token ⟨1, "caf\u00e9 \x7f", .exit (-1), "ok\n"⟩ ++ "\u3000") =
        .ok ⟨1, "caf\u00e9 \x7f", .exit (-1), "ok\n"⟩ ∧
      ofToken (token ⟨2, "", .noCrash, ""⟩) = .error (.laterSchema 2) := by
  have hbefore : ∀ c ∈ "\n".toList, Text.isBlank c = true := List.all_eq_true.mp (by decide)
  have hafter : ∀ c ∈ "\u3000".toList, Text.isBlank c = true := List.all_eq_true.mp (by decide)
  refine ⟨hbefore, hafter, ?_, ?_⟩
  · exact (ofToken_token ⟨1, "caf\u00e9 \x7f", .exit (-1), "ok\n"⟩).2.1 (by decide) "\n" "\u3000"
      hbefore hafter
  · exact (ofToken_token ⟨2, "", .noCrash, ""⟩).2.2 (by decide)

end TestRecord

end BuildPlan
