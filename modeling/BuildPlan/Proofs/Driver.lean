import BuildPlan.Proofs.Numeral
import BuildPlan.Proofs.Readable
import BuildPlan.Scenario.Driver

/-!
# What a driver tells of its scenario

A driver is read from left to right: its look-up functions tell the helpers and the files, and its
main function the include paths and, block by block, the steps. So scenarios of one name and one
host code have different drivers, unless they differ by an entry point that no step calls
(`driver_injective`).
-/

namespace BuildPlan.Scenario

open Text (Apart Readable ReadableBefore readableBefore_writeEach readable_cLiteral writeEach
  unlines unlines_append unlines_map)

theorem ScriptLine.text_injective : Function.Injective ScriptLine.text := by
  intro ⟨script, line⟩ ⟨script', line'⟩ h
  have hlist := congrArg (fun s => s.toList.reverse) h
  simp only [text, String.toList_append, Nat.toList_repr, List.reverse_append,
    show ":".toList = [':'] from rfl, List.reverse_singleton, List.singleton_append] at hlist
  -- the numeral reaches back to the last colon
  have hcolon : ∀ n, ':' ∉ (Nat.toDigits 10 n).reverse := fun n hmem =>
    Text.notMem_toDigits (by decide) n (List.mem_reverse.mp hmem)
  obtain ⟨hline, hscript⟩ := Text.append_cons_inj (hcolon line) (hcolon line') hlist
  have hdigits := Text.digits?_toDigits line
  rw [List.reverse_inj.mp hline, Text.digits?_toDigits] at hdigits
  rw [String.toList_inj.mp (List.reverse_inj.mp hscript), Option.some.inj hdigits]

namespace Driver

theorem readableBefore_value : ReadableBefore ") \x7b" fun v : Int32 => Text.showInt v.toInt := by
  refine Text.readableBefore_of_notMem (c := ')') (fun v w h => ?_) (by decide) fun v hmem => ?_
  · exact Int32.toInt_inj.mp (Text.showInt_injective h)
  · rcases Text.mem_showInt hmem with h | h
    · exact absurd h (by decide)
    · exact absurd h (by decide)

/-! ## The look-up functions -/

def helperText (helper : String) : String :=
  unlines
    ["  if (strcmp(" ++ Text.cLiteral helper ++ ", name) == 0) return (void*)" ++ helper ++ ";"]

/-- What follows the answers for the helpers. -/
def helperEnd : String := unlines ["  return NULL;", "\x7d", ""]

theorem readable_helperLines : Readable fun helpers => unlines (helperLines helpers) := by
  have hwrite : ∀ helpers, unlines (helperLines helpers) =
      unlines ["static void* get_host_helper_func(const char* name) \x7b", "  (void)name;"] ++
        (writeEach (fun _ => helperText) 0 helpers ++ helperEnd) := by
    intro helpers
    rw [helperLines, unlines_append, unlines_append, unlines_map _ 0, String.append_assoc]
    rfl
  have hread : Readable helperText := by
    intro helper helper' rest rest' h
    simp only [helperText, unlines, String.append_assoc, String.append_right_inj] at h
    obtain ⟨rfl, hrest⟩ := readable_cLiteral h
    simpa only [String.append_right_inj, true_and] using hrest
  have hstop : ∀ helper rest rest', helperText helper ++ rest ≠ helperEnd ++ rest' := by
    intro helper rest rest'
    simp only [helperText, helperEnd, unlines, String.append_assoc]
    exact Apart.append_ne (by decide) _ _
  intro helpers helpers' rest rest' h
  simp only [hwrite, String.append_assoc, String.append_right_inj] at h
  exact (readableBefore_writeEach (fun _ => hread) (fun _ => hstop) 0).apply h

/-- The part of the look-up that answers for a file. -/
def fileText (index : Nat) (file : TrackedFile) : String :=
  unlines (fileLines index file)

theorem unlines_filesFrom (index : Nat) (files : List TrackedFile) :
    unlines (filesFrom index files) = writeEach fileText index files := by
  induction files generalizing index with
  | nil => rfl
  | cons file files ih => rw [filesFrom, unlines_append, ih, writeEach, fileText]

theorem readable_fileText (index : Nat) : Readable (fileText index) := by
  intro ⟨path, contents⟩ ⟨path', contents'⟩ rest rest' h
  simp only [fileText, fileLines, unlines_append, unlines, String.append_assoc,
    String.append_right_inj] at h
  obtain ⟨rfl, harray⟩ := readable_cLiteral h
  simp only [String.append_right_inj] at harray
  obtain ⟨rfl, hrest⟩ := Text.readable_cByteArray _ _ harray
  simpa only [String.append_right_inj, true_and] using hrest

theorem readable_lookupLines : Readable fun files => unlines (lookupLines files) := by
  have hwrite : ∀ files, unlines (lookupLines files) =
      unlines
        ["static bool get_file_by_name(const char* filename, char** contents, size_t* size) \x7b"] ++
        (writeEach fileText 0 files ++ unlines diskLines) := by
    intro files
    rw [lookupLines, unlines_append, unlines_append, unlines_filesFrom, String.append_assoc]
  have hstop : ∀ n file rest rest', fileText n file ++ rest ≠ unlines diskLines ++ rest' := by
    intro n file rest rest'
    simp only [fileText, fileLines, diskLines, List.cons_append, unlines, String.append_assoc]
    exact Apart.append_ne (by decide) _ _
  intro files files' rest rest' h
  simp only [hwrite, String.append_assoc, String.append_right_inj] at h
  exact (readableBefore_writeEach readable_fileText hstop 0).apply h

/-! ## The main function -/

def itemText (item : String) : String :=
  Text.cLiteral item ++ ", "

theorem joinWith_items (items : List String) :
    Text.joinWith ", " (items.map Text.cLiteral ++ ["NULL"]) =
      writeEach (fun _ => itemText) 0 items ++ "NULL" := by
  suffices h : ∀ n, Text.joinWith ", " (items.map Text.cLiteral ++ ["NULL"]) =
      writeEach (fun _ => itemText) n items ++ "NULL" from h 0
  induction items with
  | nil => exact fun _ => rfl
  | cons item items ih =>
    intro n
    rw [List.map_cons, List.cons_append, Text.joinWith, ih (n + 1), writeEach, itemText,
      String.append_assoc, String.append_assoc, String.append_assoc]
    simp

theorem cArray_eq (name : String) (items : List String) :
    cArray name items = "  const char* " ++ name ++ "[] = \x7b" ++
      Text.joinWith ", " (items.map Text.cLiteral ++ ["NULL"]) ++ "\x7d;" := rfl

theorem readable_cArray (name : String) : Readable (cArray name) := by
  have hread : Readable itemText := by
    intro item item' rest rest' h
    simp only [itemText, String.append_assoc] at h
    obtain ⟨rfl, hrest⟩ := readable_cLiteral h
    simpa only [String.append_right_inj, true_and] using hrest
  have hstop : ∀ item rest rest', itemText item ++ rest ≠ "NULL" ++ rest' := by
    intro item rest rest'
    obtain ⟨tail, htail⟩ := Text.exists_quote_append item
    rw [itemText, htail, String.append_assoc, String.append_assoc]
    exact Apart.append_ne (by decide) _ _
  intro items items' rest rest' h
  simp only [cArray_eq, joinWith_items, String.append_assoc, String.append_right_inj] at h
  obtain ⟨rfl, hrest⟩ := (readableBefore_writeEach (fun _ => hread) (fun _ => hstop) 0).apply h
  simpa only [String.append_right_inj, true_and] using hrest

/-- A step together with what its block depends on: only a call names the entry point. -/
inductive Block where
  | update (file contents : String)
  | call (entry : String) (value : Int32) (source : ScriptLine)

def Block.ofStep (entry : String) : Step → Block
  | .update file contents => .update file contents
  | .expect value source => .call entry value source

def Block.text (index : Nat) : Block → String
  | .update file contents => unlines (blockLines (statements "" index (.update file contents)))
  | .call entry value source => unlines (blockLines (statements entry index (.expect value source)))

theorem unlines_blocksFrom (entry : String) (index : Nat) (steps : List Step) :
    unlines ((blocksFrom entry index steps).flatMap blockLines) =
      writeEach Block.text index (steps.map (Block.ofStep entry)) := by
  induction steps generalizing index with
  | nil => rfl
  | cons step steps ih =>
    rw [blocksFrom, List.flatMap_cons, unlines_append, ih, List.map_cons, writeEach]
    cases step <;> rfl

theorem lines_buffer (name contents : String) :
    (Statement.buffer name contents).lines = Text.cByteArray "    " name contents := rfl

theorem lines_findEntry (entry : String) : (Statement.findEntry entry).lines =
    ["    void* entry_point = dyibicc_find_export(ctx, " ++ Text.cLiteral entry ++ ");"] := rfl

theorem lines_callEntry : Statement.callEntry.lines =
    ["    char* entry_argv[] = \x7b\"prog\", NULL\x7d;"] ++
      ["    int result = ((int (*)(int, char**))entry_point)(1, entry_argv);"] := rfl

theorem lines_guard (failure : Failure) : (Statement.guard failure).lines = failure.lines "    " :=
  rfl

theorem condition_update (file buffer : String) : (Failure.update file buffer).condition =
    "!dyibicc_update(ctx, " ++ Text.cLiteral file ++ ", " ++ buffer ++ ")" := rfl

theorem condition_noEntry (origin entry : String) :
    (Failure.noEntry origin entry).condition = "!entry_point" := rfl

theorem condition_value (origin : String) (expected : Int32) :
    (Failure.value origin expected).condition =
      "result != " ++ Text.showInt expected.toInt := rfl

theorem report_update (file buffer : String) : (Failure.update file buffer).report =
    "\"%s: update failed\\n\", " ++ Text.cLiteral file := rfl

theorem report_noEntry (origin entry : String) : (Failure.noEntry origin entry).report =
    "\"%s: entry point %s not found\\n\", " ++ Text.cLiteral origin ++ ", " ++
      Text.cLiteral entry := rfl

theorem report_value (origin : String) (expected : Int32) :
    (Failure.value origin expected).report =
      "\"%s: got %d, but expected %d\\n\", " ++ Text.cLiteral origin ++ ", result, " ++
        Text.showInt expected.toInt := rfl

theorem text_update (index : Nat) (file contents : String) :
    Block.text index (.update file contents) =
      unlines ["  \x7b"] ++ (unlines (Text.cByteArray "    " (bufferName index) contents) ++
        (unlines ((Failure.update file (bufferName index)).lines "    ") ++
          unlines ["  \x7d", ""])) := by
  simp only [Block.text, blockLines, statements, List.flatMap_cons, List.flatMap_nil,
    List.append_nil, unlines_append, lines_buffer, lines_guard, String.append_assoc]

theorem text_call (index : Nat) (entry : String) (value : Int32) (source : ScriptLine) :
    Block.text index (.call entry value source) =
      unlines ["  \x7b"] ++ (unlines (Statement.findEntry entry).lines ++
        (unlines ((Failure.noEntry source.text entry).lines "    ") ++
          (unlines Statement.callEntry.lines ++
            (unlines ((Failure.value source.text value).lines "    ") ++
              (unlines (Statement.reportValue source.text).lines ++
                unlines ["  \x7d", ""]))))) := by
  simp only [Block.text, blockLines, statements, List.flatMap_cons, List.flatMap_nil,
    List.append_nil, unlines_append, lines_guard, String.append_assoc]

theorem readable_blockText (index : Nat) : Readable (Block.text index) := by
  -- the first line of a block says of which kind it is
  have hkinds : ∀ file contents entry value source rest rest',
      Block.text index (.update file contents) ++ rest ≠
        Block.text index (.call entry value source) ++ rest' := by
    intro file contents entry value source rest rest'
    simp only [text_update, text_call, Text.cByteArray, lines_findEntry, List.cons_append, unlines,
      String.append_assoc, ne_eq, String.append_right_inj,
      show "    void* entry_point = dyibicc_find_export(ctx, " =
        "    " ++ "void* entry_point = dyibicc_find_export(ctx, " by decide]
    exact Apart.append_ne (by decide) _ _
  intro block block' rest rest' h
  cases block with
  | update file contents =>
    cases block' with
    | update file' contents' =>
      simp only [text_update, String.append_assoc, String.append_right_inj] at h
      obtain ⟨rfl, hguard⟩ := Text.readable_cByteArray _ _ h
      simp only [Failure.lines, condition_update, unlines, String.append_assoc,
        String.append_right_inj] at hguard
      obtain ⟨rfl, hrest⟩ := readable_cLiteral hguard
      simpa only [String.append_right_inj, true_and] using hrest
    | call entry value source => exact absurd h (hkinds _ _ _ _ _ _ _)
  | call entry value source =>
    cases block' with
    | update file contents => exact absurd h.symm (hkinds _ _ _ _ _ _ _)
    | call entry' value' source' =>
      simp only [text_call, lines_findEntry, unlines, String.append_assoc,
        String.append_right_inj] at h
      obtain ⟨rfl, horigin⟩ := readable_cLiteral h
      simp only [Failure.lines, condition_noEntry, report_noEntry, unlines, String.append_assoc,
        String.append_right_inj] at horigin
      obtain ⟨hsource, hvalue⟩ := readable_cLiteral horigin
      obtain rfl := ScriptLine.text_injective hsource
      simp only [condition_value, String.append_assoc, String.append_right_inj] at hvalue
      obtain ⟨rfl, hrest⟩ := readableBefore_value.apply hvalue
      simpa only [String.append_right_inj, true_and] using hrest

def Block.step : Block → Step
  | .update file contents => .update file contents
  | .call _ value source => .expect value source

theorem step_ofStep (entry : String) (step : Step) : (Block.ofStep entry step).step = step := by
  cases step <;> rfl

theorem steps_of_blocks {entry entry' : String} {steps steps' : List Step}
    (h : steps.map (Block.ofStep entry) = steps'.map (Block.ofStep entry')) : steps = steps' := by
  have hsteps := congrArg (List.map Block.step) h
  simpa [Function.comp_def, step_ofStep] using hsteps

theorem entry_of_blocks {entry entry' : String} {steps steps' : List Step}
    (h : steps.map (Block.ofStep entry) = steps'.map (Block.ofStep entry')) {value : Int32}
    {source : ScriptLine} (hmem : .expect value source ∈ steps) : entry = entry' := by
  have hblock : Block.call entry value source ∈ steps'.map (Block.ofStep entry') :=
    h ▸ List.mem_map_of_mem hmem
  obtain ⟨step, -, hstep⟩ := List.mem_map.mp hblock
  cases step with
  | update file contents => cases hstep
  | expect value' source' => exact (Block.call.inj hstep).1.symm

theorem mainLines_injective {s s' : Scenario} (hfiles : s.files = s'.files)
    (h : unlines (mainLines s) = unlines (mainLines s')) :
    s.includePaths = s'.includePaths ∧
      s.steps.map (Block.ofStep s.entry) = s'.steps.map (Block.ofStep s'.entry) := by
  have hstop : ∀ n block rest rest', Block.text n block ++ rest ≠ unlines tailLines ++ rest' := by
    intro n block rest rest'
    cases block with
    | update file contents =>
      rw [text_update, tailLines]
      simp only [unlines, String.append_assoc]
      exact Apart.append_ne (by decide) _ _
    | call entry value source =>
      rw [text_call, tailLines]
      simp only [unlines, String.append_assoc]
      exact Apart.append_ne (by decide) _ _
  simp only [mainLines, setupLines, hfiles, blocks, unlines_append, unlines_blocksFrom,
    unlines, String.append_assoc, String.append_right_inj] at h
  obtain ⟨hpaths, hrest⟩ := readable_cArray _ h
  simp only [String.append_right_inj] at hrest
  have hblocks := congrArg (· ++ "") hrest
  simp only [String.append_assoc] at hblocks
  exact ⟨hpaths, ((readableBefore_writeEach readable_blockText hstop 0).apply hblocks).1⟩

end Driver

/-- **The driver loses nothing.** Scenarios of one name and one host code that have the same driver
have the same helpers, files, include paths and steps, and if they expect a result, they expect it
of the same entry point. -/
theorem driver_injective {s s' : Scenario} (hname : s.name = s'.name)
    (hhost : s.hostCode = s'.hostCode) (h : s.driver = s'.driver) :
    s.hostHelpers = s'.hostHelpers ∧ s.files = s'.files ∧ s.includePaths = s'.includePaths ∧
      s.steps = s'.steps ∧
      ((∃ value source, .expect value source ∈ s.steps) → s.entry = s'.entry) := by
  simp only [driver, Driver.programLines, hname, hhost, unlines_append, String.append_assoc,
    String.append_right_inj] at h
  obtain ⟨hhelpers, hlookup⟩ := Driver.readable_helperLines h
  obtain ⟨hfiles, hmain⟩ := Driver.readable_lookupLines hlookup
  obtain ⟨hpaths, hblocks⟩ := Driver.mainLines_injective hfiles hmain
  refine ⟨hhelpers, hfiles, hpaths, Driver.steps_of_blocks hblocks, ?_⟩
  rintro ⟨value, source, hmem⟩
  exact Driver.entry_of_blocks hblocks hmem

/-- A scenario that expects nothing of its entry point. -/
def quiet (entry : String) : Scenario where
  name := "u.scn"
  files := [⟨"a.c", "int a;\n"⟩]
  includePaths := ["inc"]
  hostHelpers := ["puts"]
  hostCode := []
  entry := entry
  steps := [.update "a.c" "int b;\n"]

/-- An entry point that no step calls is the one thing that a driver does not tell. -/
theorem driver_quiet :
    (quiet "main").driver = (quiet "start").driver ∧
      (quiet "main").steps = (quiet "start").steps ∧
      (quiet "main").entry ≠ (quiet "start").entry := by
  have hdriver : (quiet "main").driver = (quiet "start").driver := rfl
  exact ⟨hdriver, (driver_injective rfl rfl hdriver).2.2.2.1, by decide⟩

end BuildPlan.Scenario
