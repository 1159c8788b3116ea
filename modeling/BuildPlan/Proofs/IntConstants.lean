import BuildPlan.Proofs.CStatement
import BuildPlan.Proofs.Driver
import BuildPlan.Proofs.DriverData
import BuildPlan.Proofs.ScriptLines

/-!
# The values that a driver compares with

A constant of C has no sign: a minus sign is applied to it, and leaves its type as it is. The type
of a decimal constant is `int` if that can hold it, and `long` if not. So every value that a script
expects is compared and printed as the `int` that the format asks for, but the lowest one: its
digits are those of a `long` (`expected_int_iff`).
-/

namespace BuildPlan

/-! ## Comparisons in a driver -/

namespace Scenario.Driver

open CSource
open Text (cLiteral toUtf8 unlines)

/-- What a block does with a result: the value that it is compared with, and the report of another
result. -/
structure Comparison where
  compared : Typed
  format : Bytes
  origin : Bytes
  printed : Typed
  deriving DecidableEq, Repr

def comparison : Parser Comparison := do
  expect "if (result != "
  let compared ← integer
  expect ") \x7b printf("
  let format ← literal
  expect ", "
  let origin ← literal
  expect ", result, "
  let printed ← integer
  expect "); final_result = 253; goto fail; \x7d"
  return ⟨compared, format, origin, printed⟩

def comparisonOf (value : Int32) (source : ScriptLine) : Comparison where
  compared := typed value.toInt
  format := toUtf8 "%s: got %d, but expected %d\n"
  origin := toUtf8 source.text
  printed := typed value.toInt

theorem text_comparison (value : Int32) (source : ScriptLine) :
    unlines ((Failure.value source.text value).lines "    ") =
      "    if (result != " ++ (Text.showInt value.toInt ++ (") \x7b\n      printf(" ++
        ("\"%s: got %d, but expected %d\\n\"" ++ (", " ++ (cLiteral source.text ++
          (", result, " ++ (Text.showInt value.toInt ++
            ");\n      final_result = 253;\n      goto fail;\n    \x7d\n"))))))) := by
  have hresult : (Failure.value source.text value).result = 253 := rfl
  have hnumeral : Nat.repr 253 = "253" := by decide
  simp [Failure.lines, condition_value, report_value, hresult, hnumeral, unlines,
    ← String.toList_inj]

theorem yields_comparison (value : Int32) (source : ScriptLine) :
    Yields comparison (unlines ((Failure.value source.text value).lines "    "))
      (comparisonOf value source) := by
  have hrange := And.intro value.le_toInt value.toInt_lt
  have hvalue : value.toInt.natAbs ≤ IntType.long.greatest := by
    rw [IntType.greatest]
    omega
  have hformat : Reads "\"%s: got %d, but expected %d\\n\""
      [.string (toUtf8 "%s: got %d, but expected %d\n")] := by decide +kernel
  rw [text_comparison]
  apply StandsFor.then (standsFor_ofList (by decide))
  refine yields_integer hvalue ?_ (CSource.Opens.append (by decide) _)
  apply StandsFor.then (standsFor_ofList (by decide))
  refine yields_literal hformat ?_ (CSource.Opens.append (by decide) _)
  apply StandsFor.then (standsFor_ofList (by decide))
  refine yields_literal (reads_cLiteral source.text) ?_ (CSource.Opens.append (by decide) _)
  apply StandsFor.then (standsFor_ofList (by decide))
  refine yields_integer hvalue ?_ (by decide)
  exact StandsFor.last (standsFor_ofList (by decide))

theorem text_noEntry (origin entry : String) :
    unlines (Statement.findEntry entry).lines ++
      unlines ((Failure.noEntry origin entry).lines "    ") =
      "    void* entry_point = dyibicc_find_export(ctx, " ++ (cLiteral entry ++
        (");\n    if (!entry_point) \x7b\n      printf(\"%s: entry point %s not found\\n\", " ++
          (cLiteral origin ++ (", " ++ (cLiteral entry ++
            ");\n      final_result = 254;\n      goto fail;\n    \x7d\n"))))) := by
  have hresult : (Failure.noEntry origin entry).result = 254 := rfl
  have hnumeral : Nat.repr 254 = "254" := by decide
  simp [lines_findEntry, Failure.lines, condition_noEntry, report_noEntry, hresult, hnumeral,
    unlines, ← String.toList_inj]

/-- The entry point that a block looks up, or else the block complains. -/
def foundEntry : Parser Bytes := do
  expect "void* entry_point = dyibicc_find_export(ctx, "
  let entry ← literal
  expect "); if (!entry_point) \x7b printf(\"%s: entry point %s not found\\n\", "
  let _ ← literal
  expect ", "
  let _ ← literal
  expect "); final_result = 254; goto fail; \x7d"
  return entry

theorem yields_foundEntry {β : Type} {f : Bytes → Parser β} {b : β} {t : String}
    (origin entry : String) (hf : Yields (f (toUtf8 entry)) t b) :
    Yields (foundEntry >>= f) (unlines (Statement.findEntry entry).lines ++
      (unlines ((Failure.noEntry origin entry).lines "    ") ++ t)) b := by
  rw [← String.append_assoc, text_noEntry]
  refine Yields.bind ?_ hf
  apply StandsFor.then (standsFor_ofList (by decide))
  refine yields_literal (reads_cLiteral entry) ?_ (CSource.Opens.append (by decide) _)
  apply StandsFor.then (standsFor_ofList (by decide))
  refine yields_literal (reads_cLiteral origin) ?_ (CSource.Opens.append (by decide) _)
  apply StandsFor.then (standsFor_ofList (by decide))
  refine yields_literal (reads_cLiteral entry) ?_ (by decide)
  exact StandsFor.last (standsFor_ofList (by decide))

/-- The block of an expectation: its entry point, and what it does with the `int` result. -/
def callBlock : Parser (Bytes × Comparison) := do
  expect "\x7b"
  let entry ← foundEntry
  expect "char* entry_argv[] = \x7b\"prog\", NULL\x7d;"
  expect "int result = ((int (*)(int, char**))entry_point)(1, entry_argv);"
  let found ← comparison
  expect "printf(\"%s: OK (%d)\\n\", "
  let _ ← literal
  expect ", result); \x7d"
  return (entry, found)

theorem yields_callBlock (index : Nat) (entry : String) (value : Int32) (source : ScriptLine) :
    Yields callBlock (Block.text index (.call entry value source))
      (toUtf8 entry, comparisonOf value source) := by
  have hreport : unlines (Statement.reportValue source.text).lines ++ unlines ["  \x7d", ""] =
      "    printf(\"%s: OK (%d)\\n\", " ++ (cLiteral source.text ++ ", result);\n  \x7d\n\n") := by
    simp [Statement.lines, unlines, ← String.toList_inj]
  rw [text_call, lines_callEntry, Text.unlines_append, hreport, String.append_assoc]
  apply StandsFor.then (standsFor_line (by decide))
  refine yields_foundEntry source.text entry ?_
  apply StandsFor.then (standsFor_line (by decide))
  apply StandsFor.then (standsFor_line (by decide))
  refine (yields_comparison value source).bind ?_
  apply StandsFor.then (standsFor_ofList (by decide))
  refine yields_literal (reads_cLiteral source.text) ?_ (by decide)
  exact StandsFor.last (standsFor_ofList (by decide))

/-! ## What the format asks for -/

/-- What stands behind a format, or is asked for there. -/
inductive ArgType where
  | text
  | integer (type : IntType)
  deriving DecidableEq, Repr

/-- What a format asks for, conversion by conversion: a text for `%s`, an `int` for `%d`, and
nothing for `%%`. -/
def wanted? : Bytes → Option (List ArgType)
  | 0x25 :: 0x73 :: bytes => (wanted? bytes).map (.text :: ·)
  | 0x25 :: 0x64 :: bytes => (wanted? bytes).map (.integer .int :: ·)
  | 0x25 :: 0x25 :: bytes => wanted? bytes
  | 0x25 :: _ => none
  | _ :: bytes => wanted? bytes
  | [] => some []

/-- The format asks for what stands behind it. A compiler that warns of formats takes no other. -/
def Comparison.Agrees (c : Comparison) : Prop :=
  wanted? c.format = some [.text, .integer .int, .integer c.printed.type]

theorem agrees_comparisonOf (value : Int32) (source : ScriptLine) :
    (comparisonOf value source).Agrees ↔ (typed value.toInt).type = .int := by
  have hwanted : wanted? (toUtf8 "%s: got %d, but expected %d\n") =
      some [.text, .integer .int, .integer .int] := by decide +kernel
  rw [Comparison.Agrees, comparisonOf, hwanted]
  simp [eq_comm]

theorem type_typed_toInt (value : Int32) :
    (typed value.toInt).type = .int ↔ value ≠ Int32.minValue := by
  have hrange := And.intro value.le_toInt value.toInt_lt
  rw [Ne, ← Int32.toInt_inj, Int32.toInt_minValue, typed, IntType.greatest]
  split_ifs with h
  · simp only [true_iff]
    omega
  · simp only [false_iff, not_not]
    omega

/-! ## The blocks of a driver -/

theorem exists_block {s : Scenario} {value : Int32} {source : ScriptLine}
    (h : .expect value source ∈ s.steps) : ∃ index front back,
      s.driver = front ++ Block.text index (.call s.entry value source) ++ back := by
  have hmain : ∃ front, s.driver =
      front ++ unlines ((blocks s).flatMap blockLines) ++ unlines tailLines := by
    rw [driver, programLines, mainLines, ← List.append_assoc, ← List.append_assoc,
      Text.unlines_append, Text.unlines_append]
    exact ⟨_, rfl⟩
  have hblock : Block.call s.entry value source ∈ s.steps.map (Block.ofStep s.entry) :=
    List.mem_map_of_mem h
  obtain ⟨before, hdriver⟩ := hmain
  obtain ⟨index, front, back, hblocks⟩ := Text.exists_writeEach hblock 0
  refine ⟨index, before ++ front, back ++ unlines tailLines, ?_⟩
  rw [hdriver, blocks, unlines_blocksFrom, hblocks]
  simp only [String.append_assoc]

/-! ## Values as they are expected -/

/-- **All values but one are expected as they are printed.** For each `expect` directive of a script
that gives a scenario there is a block in the driver that, by the typing of constants in C, compares
the result with the value and prints the value. Both times the constant has the type `int`, and the
format asks for what is printed, unless the value is the lowest of all: there the constant is a
`long`, for which the format does not ask. -/
theorem expected_int_iff {name source : String} {s : Scenario} (hs : parse name source = .ok s)
    {n : Nat} {line : List Char} {value : Int32} (hn : Outside (Text.lines source.toList) n)
    (hline : lineAt? (Text.lines source.toList) n = some line) (hexpect : IsExpect line value) :
    ∃ front block back found, s.driver = front ++ block ++ back ∧
      parse? callBlock block = some (toUtf8 s.entry, found) ∧
      found.origin = toUtf8 (ScriptLine.text ⟨name, n⟩) ∧
      found.compared = found.printed ∧ found.printed.value = value.toInt ∧
      (found.printed.type = .int ↔ value ≠ Int32.minValue) ∧
      (found.Agrees ↔ value ≠ Int32.minValue) := by
  have hstep : .expect value ⟨name, n⟩ ∈ s.steps := by
    rw [← mem_expectations, (expected_of_parse hs).mem_iff]
    exact ⟨rfl, (bounds_of_lineAt? hline).2, hn, line, hline, hexpect⟩
  obtain ⟨index, front, back, hdriver⟩ := exists_block hstep
  refine ⟨front, _, back, comparisonOf value ⟨name, n⟩, hdriver,
    (yields_callBlock index s.entry value ⟨name, n⟩).parse?_eq, rfl, rfl, rfl,
    type_typed_toInt value, ?_⟩
  rw [agrees_comparisonOf, type_typed_toInt]

namespace Sample

/-- A script that expects a value of its file, which is empty. -/
def script (value : String) : String :=
  unlines ["file a.c <<E", "E", "expect " ++ value]

def scenario (value : Int32) : Scenario where
  name := "s.scn"
  files := [⟨"a.c", ""⟩]
  includePaths := []
  hostHelpers := []
  hostCode := []
  entry := usualEntry
  steps := [.expect value ⟨"s.scn", 3⟩]

/-- The value above the lowest one is still an `int`. -/
theorem expected_int_iff_above_lowest :
    parse "s.scn" (script "-2147483647") = .ok (scenario (-2147483647)) ∧
      ∃ front block back found, (scenario (-2147483647)).driver = front ++ block ++ back ∧
        parse? callBlock block = some (toUtf8 "main", found) ∧
        found.printed.type = .int ∧ found.printed.value = -2147483647 ∧ found.Agrees := by
  have hparse : parse "s.scn" (script "-2147483647") = .ok (scenario (-2147483647)) := by
    decide +kernel
  have hexpect : IsExpect "expect -2147483647".toList (-2147483647) :=
    ⟨"-2147483647", by decide +kernel, by decide +kernel⟩
  have houtside : Outside (Text.lines (script "-2147483647").toList) 3 :=
    .behind .first (show lineAt? _ 1 = some "file a.c <<E".toList by decide +kernel)
      (show Scenario.Opens _ ['E'] from ⟨by decide, .inl ⟨"a.c", by decide +kernel⟩⟩)
      (show 1 < 2 by decide) (show lineAt? _ 2 = some ['E'] by decide +kernel) (by decide)
      (fun k l hlow hhigh => by omega)
  obtain ⟨front, block, back, found, hdriver, hblock, -, -, hvalue, htype, hagrees⟩ :=
    expected_int_iff hparse houtside (by decide +kernel) hexpect
  exact ⟨hparse, front, block, back, found, hdriver, hblock, htype.mpr (by decide), hvalue,
    hagrees.mpr (by decide)⟩

/-- The lowest value can be expected, but is printed as a `long`. -/
theorem lowest_as_long :
    parse "s.scn" (script "-2147483648") = .ok (scenario Int32.minValue) ∧
      ∃ front block back found, (scenario Int32.minValue).driver = front ++ block ++ back ∧
        parse? callBlock block = some (toUtf8 "main", found) ∧
        found.compared = ⟨.long, -2147483648⟩ ∧ found.printed = ⟨.long, -2147483648⟩ ∧
        ¬ found.Agrees := by
  have hstep : .expect Int32.minValue ⟨"s.scn", 3⟩ ∈ (scenario Int32.minValue).steps := by decide
  obtain ⟨index, front, back, hdriver⟩ := exists_block hstep
  refine ⟨by decide +kernel, front, _, back, comparisonOf Int32.minValue ⟨"s.scn", 3⟩, hdriver,
    (yields_callBlock index "main" Int32.minValue ⟨"s.scn", 3⟩).parse?_eq, by decide, by decide, ?_⟩
  rw [agrees_comparisonOf]
  decide

end Sample

end Scenario.Driver

end BuildPlan
