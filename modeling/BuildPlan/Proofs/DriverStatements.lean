import BuildPlan.Proofs.CStatement
import BuildPlan.Proofs.Driver
import BuildPlan.Proofs.DriverData

/-!
# The main function of a driver as C

What the main function of a driver says is read off its text by the rules of C: first the variables,
then the guard around the first build, a block for each step, and the end that all guards go to
(`parse?_mainLines`).
-/

namespace BuildPlan.Scenario.Driver

open CSource (Condition Expression Lists Operand Reads Token endsWord isLetter lists_around
  lists_simple operandTokens operandsTo_operandTokens reads_cLiteral simple typed)
open Text (cLiteral toUtf8 unlines)

/-! ## What the lines mean -/

/-- What is asked before a failure. -/
def Failure.asked : Failure → Condition
  | initialUpdate => .not (.call "dyibicc_update" [.name "ctx", .name "NULL", .name "NULL"])
  | update file buffer =>
    .not (.call "dyibicc_update" [.name "ctx", .text (toUtf8 file), .name buffer])
  | noEntry _ _ => .not (.operand (.name "entry_point"))
  | value _ expected => .differs (.name "result") (.integer (typed expected.toInt))

def Failure.printed : Failure → List Operand
  | initialUpdate => [.text (toUtf8 "initial update failed\n")]
  | update file _ => [.text (toUtf8 "%s: update failed\n"), .text (toUtf8 file)]
  | noEntry origin entry =>
    [.text (toUtf8 "%s: entry point %s not found\n"), .text (toUtf8 origin), .text (toUtf8 entry)]
  | value origin expected =>
    [.text (toUtf8 "%s: got %d, but expected %d\n"), .text (toUtf8 origin), .name "result",
      .integer (typed expected.toInt)]

def Failure.source (f : Failure) : CSource.Statement :=
  .guard f.asked [.evaluate (.call "printf" f.printed),
    .assign "final_result" (.operand (.integer (typed f.result))), .goto "fail"]

def Statement.source : Statement → List CSource.Statement
  | buffer name contents => [.characters name (toUtf8 contents ++ [0])]
  | findEntry entry =>
    [.declare "entry_point" (.call "dyibicc_find_export" [.name "ctx", .text (toUtf8 entry)])]
  | callEntry =>
    [.pointers "entry_argv" [.text (toUtf8 "prog"), .name "NULL"],
      .declare "result" (.callMain "entry_point" [.integer (typed 1), .name "entry_argv"])]
  | guard failure => [failure.source]
  | reportValue origin =>
    [.evaluate (.call "printf"
      [.text (toUtf8 "%s: OK (%d)\n"), .text (toUtf8 origin), .name "result"])]

def blockSource (block : List Statement) : CSource.Statement :=
  .block (block.flatMap Statement.source)

/-- An array of texts that ends with a null pointer. -/
def arraySource (name : String) (items : List String) : CSource.Statement :=
  .pointers name (items.map (fun item => .text (toUtf8 item)) ++ [.name "NULL"])

def environmentFields : List (String × Operand) :=
  [("include_paths", .name "include_paths"), ("files", .name "input_paths"),
    ("dyibicc_include_dir", .text (toUtf8 includeDir)),
    ("load_file_contents", .name "get_file_by_name"),
    ("get_function_address", .name "get_host_helper_func"), ("output_function", .name "NULL"),
    ("use_ansi_codes", .name "false")]

def setupSource (s : Scenario) : List CSource.Statement :=
  [arraySource "include_paths" s.includePaths,
    arraySource "input_paths" (s.files.map TrackedFile.path),
    .record "env_data" environmentFields,
    .declare "ctx" (.call "dyibicc_set_environment" [.address "env_data"]),
    .declare "final_result" (.operand (.integer (typed 0)))]

/-- The end of the main function. -/
def tailSource : List CSource.Statement :=
  [.evaluate (.call "printf" [.text (toUtf8 "OK\n")]), .label "fail",
    .evaluate (.call "dyibicc_free" [.name "ctx"]), .giveBack (.name "final_result")]

/-- The statements of the main function. -/
def mainSource (s : Scenario) : List CSource.Statement :=
  setupSource s ++ [Failure.initialUpdate.source] ++ (blocks s).map blockSource ++ tailSource

/-! ## Reading guards -/

section Guards

variable {indent : String}

theorem reads_report (f : Failure) {t : String} {us : List Token} (ht : Reads t us)
    (hopens : CSource.Opens endsWord t) : Reads (f.report ++ t) (operandTokens f.printed ++ us) := by
  have hcomma : Reads ", " [.sign ','] := by decide
  cases f with
  | initialUpdate =>
    have hformat : Reads "\"initial update failed\\n\""
        [.string (toUtf8 "initial update failed\n")] := by decide +kernel
    exact hformat.append ht
  | update file buffer =>
    have hformat : Reads "\"%s: update failed\\n\", "
        [.string (toUtf8 "%s: update failed\n"), .sign ','] := by decide +kernel
    rw [report_update]
    exact (hformat.append (reads_cLiteral file)).append ht
  | noEntry origin entry =>
    have hformat : Reads "\"%s: entry point %s not found\\n\", "
        [.string (toUtf8 "%s: entry point %s not found\n"), .sign ','] := by decide +kernel
    rw [report_noEntry]
    exact (((hformat.append (reads_cLiteral origin)).append hcomma).append
      (reads_cLiteral entry)).append ht
  | value origin expected =>
    have hformat : Reads "\"%s: got %d, but expected %d\\n\", "
        [.string (toUtf8 "%s: got %d, but expected %d\n"), .sign ','] := by decide +kernel
    have hresult : Reads ", result, " [.sign ',', .word "result".toList, .sign ','] := by decide
    have hvalue := CSource.reads_integer_append expected.toInt ht hopens
    rw [report_value]
    simp only [String.append_assoc]
    exact hformat.append ((reads_cLiteral origin).append (hresult.append hvalue))

theorem proper_typed (value : Int32) : (Operand.integer (typed value.toInt)).Proper := by
  have hrange := And.intro value.le_toInt value.toInt_lt
  refine ⟨?_, rfl⟩
  simp only [typed, CSource.IntType.greatest]
  omega

theorem proper_printed (f : Failure) : ∀ o ∈ f.printed, o.Proper := by
  cases f with
  | value origin expected =>
    have hname : (Operand.name "result").Proper := rfl
    simp only [Failure.printed, List.forall_mem_cons]
    exact ⟨trivial, trivial, hname, proper_typed expected, fun _ h => by cases h⟩
  | _ => simp [Failure.printed, Operand.Proper]

theorem printed_ne_nil (f : Failure) : f.printed ≠ [] := by
  cases f <;> simp [Failure.printed]

/-- A word that can be the name of a variable. -/
structure Identifier (x : String) : Prop where
  nonempty : x ≠ ""
  letters : ∀ c ∈ x.toList, isLetter c = true
  not_numeral : CSource.isNumeral x.toList = false

/-- The failure can be read back: a buffer that it names has an identifier for its name. -/
def Failure.Named : Failure → Prop
  | update _ buffer => Identifier buffer
  | _ => True

theorem exists_reads_condition {f : Failure} (hf : f.Named) :
    ∃ ts, Reads (f.condition ++ ") \x7b\n") (ts ++ [.sign ')', .sign '\x7b']) ∧
      ∀ rest, CSource.condition (ts ++ .sign ')' :: rest) = some (f.asked, .sign ')' :: rest) := by
  have hclose : Reads ") \x7b\n" [.sign ')', .sign '\x7b'] := by decide
  have hctx : (Operand.name "ctx").Proper := rfl
  cases f with
  | initialUpdate =>
    have hcall : Reads "!dyibicc_update(ctx, NULL, NULL)"
        [.sign '!', .word "dyibicc_update".toList, .sign '(', .word "ctx".toList, .sign ',',
          .word "NULL".toList, .sign ',', .word "NULL".toList, .sign ')'] := by decide
    have hnull : (Operand.name "NULL").Proper := rfl
    refine ⟨_, hcall.append hclose, fun rest => CSource.condition_not ?_⟩
    exact CSource.expression_call "dyibicc_update" [.name "ctx", .name "NULL", .name "NULL"]
      (by simp [hctx, hnull]) (by simp) (.sign ')' :: rest)
  | update file buffer =>
    have hcall : Reads "!dyibicc_update(ctx, "
        [.sign '!', .word "dyibicc_update".toList, .sign '(', .word "ctx".toList, .sign ','] := by
      decide
    have hcomma : Reads ", " [.sign ','] := by decide
    have hend : Reads (")" ++ ") \x7b\n") [.sign ')', .sign ')', .sign '\x7b'] := by decide
    have hbuffer := CSource.reads_word_append hf.nonempty hf.letters hend (by decide)
    have hname : (Operand.name buffer).Proper := hf.not_numeral
    have htext : (Operand.text (toUtf8 file)).Proper := trivial
    refine ⟨[.sign '!', .word "dyibicc_update".toList, .sign '(', .word "ctx".toList, .sign ',',
      .string (toUtf8 file), .sign ',', .word buffer.toList, .sign ')'], ?_,
      fun rest => CSource.condition_not ?_⟩
    · rw [condition_update]
      simp only [String.append_assoc]
      exact hcall.append ((reads_cLiteral file).append (hcomma.append hbuffer))
    · exact CSource.expression_call "dyibicc_update"
        [.name "ctx", .text (toUtf8 file), .name buffer] (by simp [hctx, htext, hname])
        (by simp) (.sign ')' :: rest)
  | noEntry origin entry =>
    have hname : Reads ("!entry_point" ++ ") \x7b\n")
        [.sign '!', .word "entry_point".toList, .sign ')', .sign '\x7b'] := by decide
    refine ⟨[.sign '!', .word "entry_point".toList], hname, fun rest => CSource.condition_not ?_⟩
    exact CSource.expression_operand (o := .name "entry_point") rfl (by decide) rest
  | value origin expected =>
    have hresult : Reads "result != " [.word "result".toList, .sign '!', .sign '='] := by decide
    have hvalue := CSource.reads_integer_append expected.toInt hclose (by decide)
    refine ⟨.word "result".toList :: .sign '!' :: .sign '=' ::
      (Operand.integer (typed expected.toInt)).tokens, ?_, fun rest => ?_⟩
    · rw [condition_value, String.append_assoc]
      exact hresult.append hvalue
    · exact CSource.condition_differs (x := "result") rfl (proper_typed expected) (.sign ')' :: rest)

theorem lists_print {os : List Operand} {text : String} (hindent : Reads indent [])
    (htext : Reads (text ++ ");\n") (operandTokens os ++ [.sign ')', .sign ';']))
    (hos : ∀ o ∈ os, o.Proper) (hne : os ≠ []) :
    Lists (indent ++ ("printf(" ++ (text ++ ");\n"))) [.evaluate (.call "printf" os)] := by
  have hcall : Reads "printf(" [.word "printf".toList, .sign '('] := by decide
  refine lists_simple (hindent.append (hcall.append htext)) fun rest => ?_
  have hprint := CSource.simple_call "printf" os (by decide) (by decide) hos hne rest
  simpa only [List.nil_append, List.cons_append, List.append_assoc] using hprint

theorem lists_failed {result : Nat} (hresult : result ≤ CSource.IntType.long.greatest)
    (hindent : Reads indent []) :
    Lists (indent ++ ("final_result = " ++ (Nat.repr result ++ ";\n")))
      [.assign "final_result" (.operand (.integer (typed result)))] := by
  have hname : Reads "final_result = " [.word "final_result".toList, .sign '='] := by decide
  have hend : Reads ";\n" [.sign ';'] := by decide
  have hvalue := CSource.reads_integer_append result hend (by decide)
  have hproper : (Operand.integer (typed result)).Proper := ⟨hresult, rfl⟩
  refine lists_simple (hindent.append (hname.append hvalue)) fun rest => ?_
  rw [List.append_assoc]
  exact CSource.simple_assign "final_result" (by decide) (by decide)
    (CSource.expression_operand hproper (c := ';') (by decide) rest)

theorem lists_goto (hindent : Reads indent []) :
    Lists (indent ++ "goto fail;\n") [.goto "fail"] := by
  have hgoto : Reads "goto fail;\n" [.word "goto".toList, .word "fail".toList, .sign ';'] := by
    decide
  refine lists_simple (hindent.append hgoto) fun rest => ?_
  simp [simple, CSource.simpleFrom, CSource.types]

theorem text_guard (f : Failure) (indent : String) : unlines (f.lines indent) =
    (indent ++ ("if (" ++ (f.condition ++ ") \x7b\n"))) ++
      (((indent ++ "  ") ++ ("printf(" ++ (f.report ++ ");\n"))) ++
        (((indent ++ "  ") ++ ("final_result = " ++ (Nat.repr f.result ++ ";\n"))) ++
          ((indent ++ "  ") ++ "goto fail;\n")) ++ (indent ++ "\x7d\n")) := by
  simp [Failure.lines, unlines, ← String.toList_inj]

theorem result_le (f : Failure) : f.result ≤ CSource.IntType.long.greatest := by
  cases f <;> simp [Failure.result, CSource.IntType.greatest]

theorem lists_guard {f : Failure} (hf : f.Named) (hindent : Reads indent []) :
    Lists (unlines (f.lines indent)) [f.source] := by
  have hinner : Reads (indent ++ "  ") [] := hindent.append (by decide)
  have hend : Reads ");\n" [.sign ')', .sign ';'] := by decide
  obtain ⟨ts, htext, hasked⟩ := exists_reads_condition hf
  have hbody := (lists_print hinner (reads_report f hend (by decide)) (proper_printed f)
    (printed_ne_nil f)).append ((lists_failed (result_le f) hinner).append (lists_goto hinner))
  rw [text_guard]
  exact CSource.lists_guard hindent htext hasked hbody

end Guards

/-! ## Reading blocks -/

theorem identifier_bufferName (index : Nat) : Identifier (bufferName index) := by
  have hname : (bufferName index).toList = "contents_step".toList ++ Nat.toDigits 10 index := by
    rw [bufferName, String.toList_append, Nat.toList_repr]
  refine ⟨fun hempty => ?_, fun c hc => ?_, ?_⟩
  · rw [hempty] at hname
    cases hname
  · rw [hname, List.mem_append] at hc
    rcases hc with hc | hc
    · exact List.all_eq_true.mp (by decide : "contents_step".toList.all isLetter = true) c hc
    · exact CSource.isLetter_of_isDigit (Text.isDigit_of_mem_toDigits hc)
  · rw [hname]
    rfl

theorem lists_buffer {name : String} (hname : Identifier name) (contents : String) :
    Lists (unlines (Text.cByteArray "    " name contents))
      [.characters name (toUtf8 contents ++ [0])] := by
  have hblanks : ∀ c ∈ "    ".toList, c = ' ' := by simp
  have htype : Reads "static char " [.word "static".toList, .word "char".toList] := by decide
  have hopen : Reads "[] = \x7b" [.sign '[', .sign ']', .sign '=', .sign '\x7b'] := by decide
  have hclose : Reads "\x7d;\n" [.sign '\x7d', .sign ';'] := by decide
  have harray := hopen.append ((CSource.reads_arrayBody hblanks contents).append hclose)
  have hread := CSource.reads_word_append hname.nonempty hname.letters harray
    (CSource.Opens.append (by decide) _)
  rw [CSource.unlines_cByteArray]
  refine Lists.of_blanks (CSource.reads_blanks hblanks) ?_
  refine lists_simple (htype.append hread) fun rest => ?_
  refine CSource.simple_qualified "static" "char" (.inl rfl) (by decide) ?_
  have hitems := CSource.initialiser_characters name (toUtf8 contents) 0 rest
  simpa [CSource.declarator] using hitems

theorem lists_findEntry (entry : String) :
    Lists (unlines (Statement.findEntry entry).lines) (Statement.findEntry entry).source := by
  have hcall : Reads "    void* entry_point = dyibicc_find_export(ctx, "
      [.word "void".toList, .sign '*', .word "entry_point".toList, .sign '=',
        .word "dyibicc_find_export".toList, .sign '(', .word "ctx".toList, .sign ','] := by decide
  have hend : Reads ");\n" [.sign ')', .sign ';'] := by decide
  have hline : unlines (Statement.findEntry entry).lines =
      "    void* entry_point = dyibicc_find_export(ctx, " ++ (Text.cLiteral entry ++ ");\n") := by
    simp [lines_findEntry, unlines, ← String.toList_inj]
  rw [hline]
  refine lists_simple (hcall.append ((reads_cLiteral entry).append hend)) fun rest => ?_
  refine CSource.simple_declared "void" (by decide) ?_
  have hread := CSource.expression_call "dyibicc_find_export"
    [.name "ctx", .text (toUtf8 entry)] (by simp [Operand.Proper, CSource.isNumeral])
    (by simp) (.sign ';' :: rest)
  have hdeclare := CSource.initialiser_value "entry_point" true (by simp) hread
  exact hdeclare

theorem lists_callEntry : Lists (unlines Statement.callEntry.lines) Statement.callEntry.source := by
  have hargv : Reads "    char* entry_argv[] = \x7b\"prog\", NULL\x7d;\n"
      [.word "char".toList, .sign '*', .word "entry_argv".toList, .sign '[', .sign ']', .sign '=',
        .sign '\x7b', .string (toUtf8 "prog"), .sign ',', .word "NULL".toList, .sign '\x7d',
        .sign ';'] := by decide
  have hcall : Reads "    int result = ((int (*)(int, char**))entry_point)(1, entry_argv);\n"
      [.word "int".toList, .word "result".toList, .sign '=', .sign '(', .sign '(',
        .word "int".toList, .sign '(', .sign '*', .sign ')', .sign '(', .word "int".toList,
        .sign ',', .word "char".toList, .sign '*', .sign '*', .sign ')', .sign ')',
        .word "entry_point".toList, .sign ')', .sign '(', .word "1".toList, .sign ',',
        .word "entry_argv".toList, .sign ')', .sign ';'] := by decide
  refine (lists_simple hargv fun rest => ?_).append (lists_simple hcall fun rest => ?_)
  · refine CSource.simple_declared "char" (by decide) ?_
    exact CSource.initialiser_pointers "entry_argv" [.text (toUtf8 "prog"), .name "NULL"]
      (by simp [Operand.Proper, CSource.isNumeral]) (by simp) rest
  · refine CSource.simple_declared "int" (by decide) ?_
    have hcast : CSource.tokens? "(int (*)(int, char**))" = some [.sign '(', .word "int".toList,
        .sign '(', .sign '*', .sign ')', .sign '(', .word "int".toList, .sign ',',
        .word "char".toList, .sign '*', .sign '*', .sign ')', .sign ')'] := by decide
    have hread := CSource.expression_callMain "entry_point" [.integer (typed 1), .name "entry_argv"]
      hcast (by simp [Operand.Proper, CSource.isNumeral, typed, CSource.IntType.greatest]) (by simp)
      (.sign ';' :: rest)
    exact CSource.initialiser_value "result" false (by simp) hread

theorem lists_reportValue (origin : String) :
    Lists (unlines (Statement.reportValue origin).lines) (Statement.reportValue origin).source := by
  have hindent : Reads "    " [] := by decide
  have hformat : Reads "\"%s: OK (%d)\\n\", " [.string (toUtf8 "%s: OK (%d)\n"), .sign ','] := by
    decide +kernel
  have hend : Reads ", result);\n" [.sign ',', .word "result".toList, .sign ')', .sign ';'] := by
    decide
  have htext : Reads (("\"%s: OK (%d)\\n\", " ++ (Text.cLiteral origin ++ ", result")) ++ ");\n")
      (operandTokens [.text (toUtf8 "%s: OK (%d)\n"), .text (toUtf8 origin), .name "result"] ++
        [.sign ')', .sign ';']) := by
    rw [String.append_assoc, String.append_assoc]
    exact hformat.append ((reads_cLiteral origin).append hend)
  have hprint := lists_print hindent htext (by simp [Operand.Proper, CSource.isNumeral]) (by simp)
  have hline : unlines (Statement.reportValue origin).lines = "    " ++ ("printf(" ++
      (("\"%s: OK (%d)\\n\", " ++ (Text.cLiteral origin ++ ", result")) ++ ");\n")) := by
    simp [Statement.lines, unlines, ← String.toList_inj]
  rw [hline]
  exact hprint

/-- The statement can be read back: the names that it makes up are identifiers. -/
def Statement.Named : Statement → Prop
  | buffer name _ => Identifier name
  | guard failure => failure.Named
  | _ => True

theorem lists_statement {st : Statement} (h : st.Named) : Lists (unlines st.lines) st.source := by
  have hindent : Reads "    " [] := by decide
  cases st with
  | buffer name contents => exact lists_buffer h contents
  | findEntry entry => exact lists_findEntry entry
  | callEntry => exact lists_callEntry
  | guard failure => exact lists_guard h hindent
  | reportValue origin => exact lists_reportValue origin

theorem lists_block {block : List Statement} (h : ∀ st ∈ block, st.Named) :
    Lists (unlines (blockLines block)) [blockSource block] := by
  have hopen : Reads (unlines ["  \x7b"]) [.sign '\x7b'] := by decide
  have hclose : Reads (unlines ["  \x7d", ""]) [.sign '\x7d'] := by decide
  have hbody : Lists (unlines (block.flatMap Statement.lines))
      (block.flatMap Statement.source) := by
    induction block with
    | nil => exact CSource.lists_empty
    | cons st block ih =>
      obtain ⟨hst, hblock⟩ := List.forall_mem_cons.mp h
      rw [List.flatMap_cons, List.flatMap_cons, Text.unlines_append]
      exact (lists_statement hst).append (ih hblock)
  rw [blockLines, Text.unlines_append, Text.unlines_append, String.append_assoc]
  exact lists_around hopen (fun _ => rfl) (fun _ => rfl) hbody hclose

theorem named_statements {entry : String} {index : Nat} {step : Step} {st : Statement}
    (h : st ∈ statements entry index step) : st.Named := by
  have hbuffer := identifier_bufferName index
  cases step with
  | update file contents =>
    simp only [statements, List.mem_cons, List.not_mem_nil, or_false] at h
    rcases h with rfl | rfl <;> exact hbuffer
  | expect value origin =>
    simp only [statements, List.mem_cons, List.not_mem_nil, or_false] at h
    rcases h with rfl | rfl | rfl | rfl | rfl <;> trivial

theorem lists_blocksFrom (entry : String) (index : Nat) (steps : List Step) :
    Lists (unlines ((blocksFrom entry index steps).flatMap blockLines))
      ((blocksFrom entry index steps).map blockSource) := by
  induction steps generalizing index with
  | nil => exact CSource.lists_empty
  | cons step steps ih =>
    rw [blocksFrom, List.flatMap_cons, List.map_cons, Text.unlines_append]
    exact (lists_block fun _ => named_statements).append (ih (index + 1))

/-! ## Reading the whole function -/

theorem reads_items (items : List String) {t : String} {us : List Token}
    (ht : Reads ("NULL" ++ t) (.word "NULL".toList :: us)) (n : Nat) :
    Reads (Text.writeEach (fun _ => itemText) n items ++ ("NULL" ++ t))
      (operandTokens (items.map (fun item => .text (toUtf8 item)) ++ [.name "NULL"]) ++ us) := by
  have hcomma : Reads ", " [.sign ','] := by decide
  induction items generalizing n with
  | nil => exact ht
  | cons item items ih =>
    have hitem := (reads_cLiteral item).append hcomma
    rw [Text.writeEach, itemText, String.append_assoc]
    have hmore : operandTokens ((item :: items).map (fun item => .text (toUtf8 item)) ++
        [.name "NULL"]) = .string (toUtf8 item) :: .sign ',' ::
          operandTokens (items.map (fun item => .text (toUtf8 item)) ++ [.name "NULL"]) := by
      rw [List.map_cons, List.cons_append, operandTokens]
      · rfl
      · simp
    rw [hmore]
    exact hitem.append (ih (n + 1))

theorem lists_cArray {name : String} (hname : Identifier name) (items : List String) :
    Lists (unlines [cArray name items]) [arraySource name items] := by
  have htype : Reads "  const char* " [.word "const".toList, .word "char".toList, .sign '*'] := by
    decide
  have hopen : Reads "[] = \x7b" [.sign '[', .sign ']', .sign '=', .sign '\x7b'] := by decide
  have hend : Reads ("NULL" ++ "\x7d;\n") [.word "NULL".toList, .sign '\x7d', .sign ';'] := by
    decide
  have hread := CSource.reads_word_append hname.nonempty hname.letters
    (hopen.append (reads_items items hend 0)) (CSource.Opens.append (by decide) _)
  have hline : unlines [cArray name items] = "  const char* " ++ (name ++ ("[] = \x7b" ++
      (Text.writeEach (fun _ => itemText) 0 items ++ ("NULL" ++ "\x7d;\n")))) := by
    rw [cArray_eq, joinWith_items]
    simp [unlines, ← String.toList_inj]
  have hproper : ∀ o ∈ items.map (fun item => Operand.text (toUtf8 item)) ++ [.name "NULL"],
      o.Proper := by
    simp only [List.mem_append, List.mem_map, List.mem_singleton]
    rintro o (⟨item, -, rfl⟩ | rfl)
    · trivial
    · rfl
  rw [hline]
  refine lists_simple (htype.append hread) fun rest => ?_
  refine CSource.simple_qualified "const" "char" (.inr rfl) (by decide) ?_
  have hitems := CSource.initialiser_pointers name _ hproper (by simp) rest
  simpa [CSource.declarator, arraySource] using hitems

/-- The lines of the structure that the compiler is started with. -/
def environmentLines : List String :=
  ["  DyibiccEnviromentData env_data = \x7b",
    "      .include_paths = include_paths,",
    "      .files = input_paths,",
    "      .dyibicc_include_dir = " ++ Text.cLiteral includeDir ++ ",",
    "      .load_file_contents = get_file_by_name,",
    "      .get_function_address = get_host_helper_func,",
    "      .output_function = NULL,",
    "      .use_ansi_codes = false,",
    "  \x7d;"]

theorem lists_environment :
    Lists (unlines environmentLines) [.record "env_data" environmentFields] := by
  -- line by line, since the reader is run on each of them
  have hopen : Reads (unlines ["  DyibiccEnviromentData env_data = \x7b"])
      [.word "DyibiccEnviromentData".toList, .word "env_data".toList, .sign '=', .sign '\x7b'] := by
    decide
  have hincludes : Reads (unlines ["      .include_paths = include_paths,"])
      (CSource.fieldTokens ("include_paths", .name "include_paths")) := by decide
  have hfiles : Reads (unlines ["      .files = input_paths,"])
      (CSource.fieldTokens ("files", .name "input_paths")) := by decide
  have hdir : Reads (unlines ["      .dyibicc_include_dir = " ++ Text.cLiteral includeDir ++ ","])
      (CSource.fieldTokens ("dyibicc_include_dir", .text (toUtf8 includeDir))) := by decide +kernel
  have hload : Reads (unlines ["      .load_file_contents = get_file_by_name,"])
      (CSource.fieldTokens ("load_file_contents", .name "get_file_by_name")) := by decide
  have haddress : Reads (unlines ["      .get_function_address = get_host_helper_func,"])
      (CSource.fieldTokens ("get_function_address", .name "get_host_helper_func")) := by decide
  have houtput : Reads (unlines ["      .output_function = NULL,"])
      (CSource.fieldTokens ("output_function", .name "NULL")) := by decide
  have hcodes : Reads (unlines ["      .use_ansi_codes = false,"])
      (CSource.fieldTokens ("use_ansi_codes", .name "false")) := by decide
  have hclose : Reads (unlines ["  \x7d;"]) [.sign '\x7d', .sign ';'] := by decide
  have hread := hopen.append (hincludes.append (hfiles.append (hdir.append (hload.append
    (haddress.append (houtput.append (hcodes.append hclose)))))))
  simp only [← Text.unlines_append] at hread
  refine lists_simple hread fun rest => ?_
  refine CSource.simple_declared "DyibiccEnviromentData" (by decide) ?_
  exact CSource.initialiser_record "env_data" environmentFields
    (by simp [environmentFields, Operand.Proper, CSource.isNumeral]) rest

theorem lists_context :
    Lists (unlines ["  DyibiccContext* ctx = dyibicc_set_environment(&env_data);"])
      [.declare "ctx" (.call "dyibicc_set_environment" [.address "env_data"])] := by
  have hread : Reads (unlines ["  DyibiccContext* ctx = dyibicc_set_environment(&env_data);"])
      [.word "DyibiccContext".toList, .sign '*', .word "ctx".toList, .sign '=',
        .word "dyibicc_set_environment".toList, .sign '(', .sign '&', .word "env_data".toList,
        .sign ')', .sign ';'] := by decide +kernel
  refine lists_simple hread fun rest => ?_
  refine CSource.simple_declared "DyibiccContext" (by decide) ?_
  have hcall := CSource.expression_call "dyibicc_set_environment" [.address "env_data"]
    (by simp [Operand.Proper]) (by simp) (.sign ';' :: rest)
  exact CSource.initialiser_value "ctx" true (by simp) hcall

theorem lists_finalResult : Lists (unlines ["  int final_result = 0;"])
    [.declare "final_result" (.operand (.integer (typed 0)))] := by
  have hread : Reads (unlines ["  int final_result = 0;"])
      [.word "int".toList, .word "final_result".toList, .sign '=', .word "0".toList,
        .sign ';'] := by decide
  refine lists_simple hread fun rest => ?_
  refine CSource.simple_declared "int" (by decide) ?_
  have hproper : (Operand.integer (typed 0)).Proper := proper_typed 0
  have hzero := CSource.expression_operand hproper (c := ';') (by decide) rest
  refine CSource.initialiser_value "final_result" false ?_ hzero
  rw [Operand.tokens]
  simp [typed, CSource.integerTokens]

theorem lists_tail : Lists (unlines tailLines.dropLast) tailSource := by
  have hprint : Lists (unlines ["  printf(\"OK\\n\");", ""])
      [.evaluate (.call "printf" [.text (toUtf8 "OK\n")])] := by
    have hread : Reads (unlines ["  printf(\"OK\\n\");", ""]) [.word "printf".toList, .sign '(',
        .string (toUtf8 "OK\n"), .sign ')', .sign ';'] := by decide
    exact lists_simple hread fun rest => CSource.simple_call "printf" [.text (toUtf8 "OK\n")]
      (by decide) (by decide) (by simp [Operand.Proper]) (by simp) rest
  have hlabel : Lists (unlines ["fail:"]) [.label "fail"] := by
    have hread : Reads (unlines ["fail:"]) [.word "fail".toList, .sign ':'] := by decide
    exact lists_simple hread fun rest => by simp [simple, CSource.simpleFrom, CSource.types]
  have hfree : Lists (unlines ["  dyibicc_free(ctx);"])
      [.evaluate (.call "dyibicc_free" [.name "ctx"])] := by
    have hread : Reads (unlines ["  dyibicc_free(ctx);"]) [.word "dyibicc_free".toList, .sign '(',
        .word "ctx".toList, .sign ')', .sign ';'] := by decide
    exact lists_simple hread fun rest => CSource.simple_call "dyibicc_free" [.name "ctx"]
      (by decide) (by decide) (by simp [Operand.Proper, CSource.isNumeral]) (by simp) rest
  have hreturn : Lists (unlines ["  return final_result;"]) [.giveBack (.name "final_result")] := by
    have hread : Reads (unlines ["  return final_result;"])
        [.word "return".toList, .word "final_result".toList, .sign ';'] := by decide
    exact lists_simple hread fun rest => by
      simp [simple, CSource.simpleFrom, CSource.types, CSource.operand, CSource.isNumeral]
  exact hprint.append (hlabel.append (hfree.append hreturn))

theorem unlines_mainLines (s : Scenario) :
    unlines (mainLines s) = unlines ["int main(void) \x7b"] ++
      ((unlines [cArray "include_paths" s.includePaths] ++
        (unlines [cArray "input_paths" (s.files.map TrackedFile.path)] ++
        (unlines [""] ++ (unlines environmentLines ++
        (unlines [""] ++ (unlines ["  DyibiccContext* ctx = dyibicc_set_environment(&env_data);"] ++
        (unlines ["  int final_result = 0;"] ++
        (unlines [""] ++ (unlines (Failure.initialUpdate.lines "  ") ++
        (unlines [""] ++ (unlines ((blocks s).flatMap blockLines) ++
          unlines tailLines.dropLast))))))))))) ++ unlines ["\x7d"]) := by
  have hsetup : setupLines s = ["int main(void) \x7b"] ++
      ([cArray "include_paths" s.includePaths] ++
      ([cArray "input_paths" (s.files.map TrackedFile.path)] ++ ([""] ++ (environmentLines ++
      ([""] ++ (["  DyibiccContext* ctx = dyibicc_set_environment(&env_data);"] ++
      (["  int final_result = 0;"] ++ [""]))))))) := rfl
  have htail : tailLines = tailLines.dropLast ++ ["\x7d"] := rfl
  rw [mainLines, hsetup]
  nth_rewrite 1 [htail]
  simp only [Text.unlines_append, String.append_assoc]

/-- **The main function of a driver reads as its statements**, whatever the scenario. -/
theorem parse?_mainLines (s : Scenario) :
    CSource.parse? CSource.mainFunction (unlines (mainLines s)) = some (mainSource s) := by
  have hblank : Reads (unlines [""]) [] := by decide
  have hclose : Reads (unlines ["\x7d"]) [.sign '\x7d'] := by decide
  have hindent : Reads "  " [] := by decide
  have hincludes : Identifier "include_paths" :=
    ⟨by decide, List.all_eq_true.mp (by decide), by decide⟩
  have hinputs : Identifier "input_paths" :=
    ⟨by decide, List.all_eq_true.mp (by decide), by decide⟩
  have hguard := lists_guard (f := .initialUpdate) trivial hindent
  have hall := (lists_cArray hincludes s.includePaths).append
    ((lists_cArray hinputs (s.files.map TrackedFile.path)).append
      (Lists.of_blanks hblank (lists_environment.append
        (Lists.of_blanks hblank (lists_context.append (lists_finalResult.append
          (Lists.of_blanks hblank (hguard.append
            (Lists.of_blanks hblank ((lists_blocksFrom s.entry 0 s.steps).append
              lists_tail))))))))))
  have hopen : CSource.StandsFor (unlines ["int main(void) \x7b"]) "int main(void) \x7b" :=
    CSource.standsFor_line (by decide)
  rw [unlines_mainLines]
  refine (CSource.parse?_mainFunction hopen hall hclose).trans (congrArg some ?_)
  simp [mainSource, setupSource, blocks]

end BuildPlan.Scenario.Driver
