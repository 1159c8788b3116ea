import BuildPlan.Proofs.BuildGraph
import BuildPlan.Proofs.Path
import BuildPlan.Proofs.Validation
import Mathlib.Data.Prod.Lex
import Mathlib.Order.Lex

/-!
# Which build graphs can be built

The graph of a project that passes its check fails in one way only: two of its outputs have the same
path (`exists_manifest_iff`). Nothing has to be known of the names in it. An edge reads what the
project has, or the output of an edge whose rule stands at an earlier stage. The one exception is
the source of a driver, which any edge might write; but a script that is named like the driver of
another one has the longer name, so that there is no way back.
-/

namespace BuildPlan.Graph

open Ninja (Edge EscapedPath Manifest)

/-! ## Paths that no edge writes -/

/-- A path below the project or its source directory. -/
def IsGiven (p : EscapedPath) : Prop :=
  ∃ path, p = inProject path ∨ p = inSources path

theorem isGiven_inProject (path : String) : IsGiven (inProject path) := ⟨path, .inl rfl⟩

theorem isGiven_inSources (path : String) : IsGiven (inSources path) := ⟨path, .inr rfl⟩

theorem not_isGiven_literal (path : String) : ¬ IsGiven (.literal path) := by
  rintro ⟨given, h | h⟩
  · exact inProject_ne_literal given path h.symm
  · exact inSources_ne_literal given path h.symm

theorem literal_injective {a b : String} (h : EscapedPath.literal a = .literal b) : a = b :=
  Ninja.escape_injective (congrArg EscapedPath.text h)

theorem Abi.mem_all (abi : Abi) : abi ∈ Abi.all := by
  cases abi <;> decide

namespace Input

variable {i : Input} {library : Edge}

/-! ## The edges of a checked project -/

def declaredOutputs (i : Input) : List EscapedPath :=
  (Abi.all.map i.generatedCode ++ [i.hostObject] ++
    i.compiledSources.map (fun s => i.toolchain.objectOf s.path) ++
    [i.project.includes.output, i.librarySource, i.libraryHeader, i.libraryLicense,
      i.libraryObject, i.compiler, i.assemblerTool] ++
    i.fixtures.map (·.path) ++ i.fuzzCases.map (·.path) ++
    i.scenarios.flatMap (fun s => [i.driverProgram s, s.script]) ++
    [allTests, manifestFile]).map .literal

/-- The edges of a graph whose library has the given edge. -/
def soundEdges (i : Input) (library : Edge) : List Edge :=
  i.codegenEdges ++ [i.hostEdge] ++ i.compiledSources.map i.sourceEdge ++
    [i.headerEdge, library, i.libraryObjectEdge, i.linkEdge, i.toolEdge] ++ i.closingEdges

/-- What the edge of the library is like where the project passes its check. -/
structure IsLibraryEdge (i : Input) (e : Edge) : Prop where
  rule : e.rule = RuleName.joinLibrary.text
  outputs : e.outputs = [.literal i.librarySource, .literal i.libraryHeader,
    .literal i.libraryLicense]
  reads : ∀ p ∈ e.reads, IsGiven p ∨ p = .literal i.project.includes.output ∨
    p = .literal i.tools.packer ∨ ∃ abi, p = .literal (i.generatedCode abi)

theorem itemPaths_of_checked {generated : String} {items : List Project.Item}
    (h : ∀ item ∈ items, ∃ base, item.base? = .ok base ∧ (base = .out → item.path = generated)) :
    ∃ paths, itemPaths items = .ok paths ∧ ∀ p ∈ paths, IsGiven p ∨ p = .literal generated := by
  induction items with
  | nil => exact ⟨[], rfl, by simp⟩
  | cons item items ih =>
    obtain ⟨⟨base, hbase, hout⟩, hitems⟩ := List.forall_mem_cons.mp h
    obtain ⟨paths, hpaths, hall⟩ := ih hitems
    refine ⟨itemPath item.path base :: paths, ?_, List.forall_mem_cons.mpr ⟨?_, hall⟩⟩
    · rw [itemPaths] at hpaths ⊢
      rw [List.mapM_cons, hpaths, hbase]
      rfl
    · cases base with
      | src => exact .inl (isGiven_inSources item.path)
      | top => exact .inl (isGiven_inProject item.path)
      | out => exact .inr (by rw [itemPath, hout rfl])

theorem libraryEdge_of_check (h : i.project.check = .ok ()) :
    ∃ library, i.libraryEdge = .ok library ∧ i.IsLibraryEdge library := by
  obtain ⟨-, -, -, -, -, hitems, -⟩ := Project.check_eq_ok_iff.mp h
  obtain ⟨before, hbefore, hgiven⟩ := itemPaths_of_checked
    fun item hitem => hitems item (List.mem_append_left i.project.library.epilogue hitem)
  obtain ⟨after, hafter, hgiven'⟩ := itemPaths_of_checked
    fun item hitem => hitems item (List.mem_append_right i.project.library.prelude hitem)
  have hinputs : i.libraryInputs =
      .ok (before ++ i.project.sharedSources.map (fun s => inSources s.path) ++ after) := by
    rw [libraryInputs, hbefore, hafter]
  refine ⟨_, by rw [libraryEdge, hinputs], rfl, rfl, fun p hp => ?_⟩
  simp only [Edge.reads, List.mem_append, List.mem_map, List.mem_cons, List.not_mem_nil,
    or_false] at hp
  rcases hp with ((hp | ⟨s, -, rfl⟩) | hp) | ⟨abi, -, rfl⟩ | rfl | rfl | rfl | rfl
  · exact (hgiven p hp).imp_right .inl
  · exact .inl (isGiven_inSources s.path)
  · exact (hgiven' p hp).imp_right .inl
  · exact .inr (.inr (.inr ⟨abi, rfl⟩))
  · exact .inl (isGiven_inSources _)
  · exact .inl (isGiven_inProject _)
  · exact .inr (.inr (.inl rfl))
  · exact .inl (isGiven_inProject _)

theorem sourceEdgesFrom_eq {sources : List Project.Source}
    (h : ∀ s ∈ sources, ∃ v, s.variant? = .ok v) :
    i.sourceEdgesFrom sources = ((sources.filter fun s =>
      match s.variant? with
      | .ok v => i.takes v
      | .error _ => false).map i.sourceEdge).map .ok := by
  induction sources with
  | nil => rfl
  | cons s sources ih =>
    obtain ⟨⟨v, hv⟩, hsources⟩ := List.forall_mem_cons.mp h
    rw [sourceEdgesFrom, hv, List.filter_cons, hv]
    cases htakes : i.takes v <;> simp [htakes, ih hsources]

theorem edges_eq_soundEdges (h : i.project.check = .ok ())
    (hlibrary : i.libraryEdge = .ok library) :
    i.edges = (i.soundEdges library).map .ok := by
  obtain ⟨-, -, hvariants, -⟩ := Project.check_eq_ok_iff.mp h
  rw [edges_eq, openingEdges, sourceEdgesFrom_eq hvariants, hlibrary, soundEdges]
  simp only [List.map_append, List.map_cons, List.map_nil]
  rfl

theorem outputs_soundEdges (hlibrary : i.IsLibraryEdge library) :
    Manifest.outputs (i.soundEdges library) = i.declaredOutputs := by
  have hone : ∀ {α : Type} (l : List α) (f : α → EscapedPath),
      l.flatMap (fun a => [f a]) = l.map f := fun l f => List.map_eq_flatMap.symm
  simp [Manifest.outputs, soundEdges, declaredOutputs, closingEdges, hlibrary.outputs, hone,
    List.flatMap_map, List.map_flatMap, List.flatMap_assoc, Function.comp_def, codegenEdges,
    hostEdge, sourceEdge, headerEdge, libraryObjectEdge, linkEdge, toolEdge, testEdge,
    scenarioEdges, allTestsEdge, regenEdge]

theorem exists_literal_of_mem_declaredOutputs {p : EscapedPath} (h : p ∈ i.declaredOutputs) :
    ∃ path, p = .literal path := by
  obtain ⟨path, -, rfl⟩ := List.mem_map.mp h
  exact ⟨path, rfl⟩

/-- The edges of a graph, one by one. -/
inductive IsEdge (i : Input) (library : Edge) : Edge → Prop where
  | code {e : Edge} (h : e ∈ i.codegenEdges) : IsEdge i library e
  | host : IsEdge i library i.hostEdge
  | source {s : Project.Source} (h : s ∈ i.compiledSources) : IsEdge i library (i.sourceEdge s)
  | headers : IsEdge i library i.headerEdge
  | library : IsEdge i library library
  | libraryObject : IsEdge i library i.libraryObjectEdge
  | link : IsEdge i library i.linkEdge
  | tool : IsEdge i library i.toolEdge
  | fixture {t : TestCase} (h : t ∈ i.fixtures) : IsEdge i library (i.testEdge true t)
  | fuzz {t : TestCase} (h : t ∈ i.fuzzCases) : IsEdge i library (i.testEdge false t)
  | scenario {s : Scenario.Compiled} {e : Edge} (hs : s ∈ i.scenarios)
    (h : e ∈ i.scenarioEdges s) : IsEdge i library e
  | allTests : IsEdge i library i.allTestsEdge
  | regen : IsEdge i library i.regenEdge

theorem mem_soundEdges {e : Edge} : e ∈ i.soundEdges library ↔ IsEdge i library e := by
  simp only [soundEdges, closingEdges, List.mem_append, List.mem_map, List.mem_cons,
    List.not_mem_nil, or_false, List.mem_flatMap]
  constructor
  · rintro ((((h | rfl) | ⟨s, h, rfl⟩) | rfl | rfl | rfl | rfl | rfl) |
      ((⟨t, h, rfl⟩ | ⟨t, h, rfl⟩) | ⟨s, hs, h⟩) | rfl | rfl)
    exacts [.code h, .host, .source h, .headers, .library, .libraryObject, .link, .tool, .fixture h,
      .fuzz h, .scenario hs h, .allTests, .regen]
  · intro h
    cases h with
    | code h => exact .inl (.inl (.inl (.inl h)))
    | source h => exact .inl (.inl (.inr ⟨_, h, rfl⟩))
    | fixture h => exact .inr (.inl (.inl (.inl ⟨_, h, rfl⟩)))
    | fuzz h => exact .inr (.inl (.inl (.inr ⟨_, h, rfl⟩)))
    | scenario hs h => exact .inr (.inl (.inr ⟨_, hs, h⟩))
    | _ => simp

/-! ## The order of the edges -/

/-- The stage at which the edges of a rule stand: behind those whose outputs they read. -/
def stageOf : RuleName → Nat
  | .compileTool => 0
  | .packHeaders => 0
  | .regenerate => 0
  | .generateCode => 1
  | .joinLibrary => 2
  | .compileSource => 3
  | .linkCompiler => 4
  | .runTest => 5
  | .compileDriver => 6
  | .runDriver => 6

/-- The stage of an edge; the target of all tests comes last. -/
def stage (e : Edge) : Nat :=
  ((RuleName.all.find? (·.text == e.rule)).map stageOf).getD 7

theorem stage_of_rule {e : Edge} (name : RuleName) (h : e.rule = name.text) :
    stage e = stageOf name := by
  rw [stage, h]
  cases name <;> decide

theorem stage_allTestsEdge : stage i.allTestsEdge = 7 := by
  have hphony : RuleName.all.find? (·.text == Ninja.phony) = none := by decide
  rw [stage, show i.allTestsEdge.rule = Ninja.phony from rfl, hphony]
  rfl

theorem mem_scenarioEdges {s : Scenario.Compiled} {e : Edge} (h : e ∈ i.scenarioEdges s) :
    (e.rule = RuleName.compileDriver.text ∧ e.outputs = [.literal (i.driverProgram s)] ∧
      e.reads = [.literal (i.driverFile s), .literal i.libraryObject, .literal i.libraryHeader]) ∨
    (e.rule = RuleName.runDriver.text ∧ e.outputs = [.literal s.script] ∧
      e.reads = [.literal (i.driverProgram s)]) := by
  rcases List.mem_pair.mp h with rfl | rfl
  · exact .inl ⟨rfl, rfl, rfl⟩
  · exact .inr ⟨rfl, rfl, rfl⟩

theorem scriptName_of_driverProgram {s s' : Scenario.Compiled}
    (h : i.driverProgram s = i.driverProgram s') : s.scriptName = s'.scriptName :=
  (String.append_left_inj _).mp ((String.append_left_inj _).mp h)

theorem scriptName_of_mem_scenarioEdges {s s' : Scenario.Compiled} {e : Edge}
    (h : e ∈ i.scenarioEdges s) (h' : e ∈ i.scenarioEdges s') : s.scriptName = s'.scriptName := by
  have hrules : RuleName.compileDriver.text ≠ RuleName.runDriver.text := by decide
  rcases mem_scenarioEdges h with ⟨hrule, hout, -⟩ | ⟨hrule, -, hreads⟩ <;>
    rcases mem_scenarioEdges h' with ⟨hrule', hout', -⟩ | ⟨hrule', -, hreads'⟩
  · exact scriptName_of_driverProgram
      (literal_injective (List.cons.inj (hout.symm.trans hout')).1)
  · exact absurd (hrule.symm.trans hrule') hrules
  · exact absurd (hrule'.symm.trans hrule) hrules
  · exact scriptName_of_driverProgram
      (literal_injective (List.cons.inj (hreads.symm.trans hreads')).1)

/-- The place of an edge among those of the scenarios: the longer the script's name the further in
front, and the driver in front of its run. -/
def place (i : Input) (e : Edge) : Int :=
  match i.scenarios.find? fun s => e ∈ i.scenarioEdges s with
  | none => 0
  | some s =>
    (if e.rule = RuleName.runDriver.text then 1 else 0) - (Path.lastPart s.scriptName).length

theorem place_of_mem {s : Scenario.Compiled} {e : Edge} (hs : s ∈ i.scenarios)
    (h : e ∈ i.scenarioEdges s) :
    i.place e =
      (if e.rule = RuleName.runDriver.text then 1 else 0) -
        (Path.lastPart s.scriptName).length := by
  rw [place]
  cases hfind : i.scenarios.find? fun s => e ∈ i.scenarioEdges s with
  | none => exact absurd h (by simpa using List.find?_eq_none.mp hfind s hs)
  | some s' =>
    have h' : e ∈ i.scenarioEdges s' := by simpa using List.find?_some hfind
    rw [scriptName_of_mem_scenarioEdges h h']

/-- The rank of an edge: its stage, and its place among the edges of the scenarios. -/
def rank (i : Input) (e : Edge) : Nat ×ₗ Int :=
  toLex (stage e, i.place e)

theorem rank_lt_of_stage {e e' : Edge} (h : stage e < stage e') : i.rank e < i.rank e' :=
  Prod.Lex.toLex_lt_toLex.mpr (.inl h)

theorem rank_lt_of_rule {e e' : Edge} (name name' : RuleName) (h : e.rule = name.text)
    (h' : e'.rule = name'.text) (hlt : stageOf name < stageOf name') : i.rank e < i.rank e' := by
  refine rank_lt_of_stage ?_
  rwa [stage_of_rule name h, stage_of_rule name' h']

theorem rank_lt_of_place {e e' : Edge} (name name' : RuleName) (h : e.rule = name.text)
    (h' : e'.rule = name'.text) (hstage : stageOf name = stageOf name')
    (hlt : i.place e < i.place e') : i.rank e < i.rank e' := by
  refine Prod.Lex.toLex_lt_toLex.mpr (.inr ⟨?_, hlt⟩)
  rwa [stage_of_rule name h, stage_of_rule name' h']

theorem rule_of_mem_codegenEdges {e : Edge} (h : e ∈ i.codegenEdges) :
    e.rule = RuleName.generateCode.text := by
  obtain ⟨abi, -, rfl⟩ := List.mem_map.mp h
  rfl

/-- An edge stands in front of the scenarios, belongs to one, or is the target of all tests. -/
theorem stage_lt_or_scenario {e : Edge} (hlibrary : i.IsLibraryEdge library)
    (h : IsEdge i library e) :
    (∃ name, e.rule = RuleName.text name ∧ stageOf name < 6) ∨
      (∃ s ∈ i.scenarios, e ∈ i.scenarioEdges s) ∨ e = i.allTestsEdge := by
  cases h with
  | code h => exact .inl ⟨.generateCode, rule_of_mem_codegenEdges h, by decide⟩
  | host => exact .inl ⟨.compileSource, rfl, by decide⟩
  | source h => exact .inl ⟨.compileSource, rfl, by decide⟩
  | headers => exact .inl ⟨.packHeaders, rfl, by decide⟩
  | library => exact .inl ⟨.joinLibrary, hlibrary.rule, by decide⟩
  | libraryObject => exact .inl ⟨.compileSource, rfl, by decide⟩
  | link => exact .inl ⟨.linkCompiler, rfl, by decide⟩
  | tool => exact .inl ⟨.compileTool, rfl, by decide⟩
  | fixture h => exact .inl ⟨.runTest, rfl, by decide⟩
  | fuzz h => exact .inl ⟨.runTest, rfl, by decide⟩
  | scenario hs h => exact .inr (.inl ⟨_, hs, h⟩)
  | allTests => exact .inr (.inr rfl)
  | regen => exact .inl ⟨.regenerate, rfl, by decide⟩

theorem rule_known {e : Edge} (hlibrary : i.IsLibraryEdge library) (h : IsEdge i library e) :
    e.rule = Ninja.phony ∨ e.rule ∈ RuleName.all.map RuleName.text := by
  have hmem : ∀ name : RuleName, name.text ∈ RuleName.all.map RuleName.text := fun name =>
    List.mem_map_of_mem (by cases name <;> decide)
  rcases stage_lt_or_scenario hlibrary h with ⟨name, hrule, -⟩ | ⟨s, -, h⟩ | rfl
  · exact .inr (hrule ▸ hmem name)
  · rcases mem_scenarioEdges h with ⟨hrule, -⟩ | ⟨hrule, -⟩
    · exact .inr (hrule ▸ hmem _)
    · exact .inr (hrule ▸ hmem _)
  · exact .inl rfl

/-! ## What an edge reads -/

/-- The edges that write a path all stand in front of an edge. -/
def Ready (i : Input) (edges : List Edge) (e : Edge) (p : EscapedPath) : Prop :=
  ∀ writer ∈ edges, p ∈ writer.outputs → i.rank writer < i.rank e

section Reads

variable {edges : List Edge} {e : Edge} {p : EscapedPath}

theorem ready_of_notMem (h : p ∉ Manifest.outputs edges) : i.Ready edges e p :=
  fun writer hwriter hp => absurd (Manifest.mem_outputs.mpr ⟨writer, hwriter, hp⟩) h

theorem ready_of_isGiven (hlibrary : i.IsLibraryEdge library) (h : IsGiven p) :
    i.Ready (i.soundEdges library) e p := by
  refine ready_of_notMem fun hp => ?_
  rw [outputs_soundEdges hlibrary] at hp
  obtain ⟨path, rfl⟩ := exists_literal_of_mem_declaredOutputs hp
  exact not_isGiven_literal path h

theorem ready_of_writer (hnodup : (Manifest.outputs edges).Nodup) {writer : Edge}
    (hwriter : writer ∈ edges) (hp : p ∈ writer.outputs) (h : i.rank writer < i.rank e) :
    i.Ready edges e p := by
  intro writer' hwriter' hp'
  rwa [Manifest.eq_of_mem_outputs hnodup hwriter' hwriter hp' hp]

/-- The source of a driver ends in a way that no program does, nor the target of all tests. -/
theorem getLast?_driverFile (s : Scenario.Compiled) :
    (i.driverFile s).toList.getLast? = some 'c' := by
  have hend : ".driver.c".toList = ".driver.".toList ++ ['c'] := by decide
  rw [driverFile, String.toList_append, hend, ← List.append_assoc, List.getLast?_concat]

theorem driverFile_ne_driverProgram (s s' : Scenario.Compiled) :
    i.driverFile s ≠ i.driverProgram s' := by
  intro h
  have hlast := getLast?_driverFile (i := i) s
  rw [h, driverProgram, Toolchain.program] at hlast
  cases hplatform : i.toolchain.platform with
  | linux =>
    rw [hplatform] at hlast
    simp [Platform.programSuffix] at hlast
  | windows =>
    rw [hplatform] at hlast
    simp [Platform.programSuffix] at hlast

theorem driverFile_ne_allTests (s : Scenario.Compiled) : i.driverFile s ≠ allTests := by
  intro h
  have hlast := getLast?_driverFile (i := i) s
  rw [h] at hlast
  exact absurd hlast (by decide)

/-- A script that is named like the source of a driver has a longer name than that one's script. -/
theorem length_lastPart_of_driverFile {s s' : Scenario.Compiled} (h : s'.script = i.driverFile s) :
    (Path.lastPart s.scriptName).length + 9 = (Path.lastPart s'.scriptName).length := by
  have hslash : '/' ∉ ".driver.c".toList := by decide
  have hlast : Path.lastPart s'.script = Path.lastPart s.scriptName ++ ".driver.c".toList := by
    rw [h, driverFile, Path.lastPart_append _ hslash]
  have hname : Path.IsName (String.ofList (Path.lastPart s'.script)) := by
    refine Path.isName_of_length ?_ (Path.notMem_lastPart _)
    rw [hlast, List.length_append, show ".driver.c".toList.length = 9 from rfl]
    omega
  have hscript : s'.scriptName = String.ofList (Path.lastPart s'.script) := by
    rw [Scenario.Compiled.scriptName, Scenario.nameOf, Path.fileName?_eq_lastPart hname,
      Option.getD_some]
  rw [hscript, Path.lastPart_ofList (Path.notMem_lastPart _), hlast, List.length_append]
  rfl

theorem ready_driverFile (hlibrary : i.IsLibraryEdge library) {s : Scenario.Compiled}
    (hs : s ∈ i.scenarios) (he : e ∈ i.scenarioEdges s)
    (hrule : e.rule = RuleName.compileDriver.text) :
    i.Ready (i.soundEdges library) e (.literal (i.driverFile s)) := by
  intro writer hwriter hp
  rcases stage_lt_or_scenario hlibrary (mem_soundEdges.mp hwriter) with
    ⟨name, hname, hlt⟩ | ⟨s', hs', hwriter⟩ | rfl
  · exact rank_lt_of_rule name .compileDriver hname hrule hlt
  · rcases mem_scenarioEdges hwriter with ⟨-, hout, -⟩ | ⟨hrun, hout, -⟩
    · rw [hout, List.mem_singleton] at hp
      exact absurd (literal_injective hp) (driverFile_ne_driverProgram s s')
    · rw [hout, List.mem_singleton] at hp
      have hlength := length_lastPart_of_driverFile (literal_injective hp).symm
      refine rank_lt_of_place .runDriver .compileDriver hrun hrule rfl ?_
      rw [place_of_mem hs' hwriter, place_of_mem hs he, hrun, hrule, if_pos rfl, if_neg (by decide)]
      omega
  · rw [show i.allTestsEdge.outputs = [.literal allTests] from rfl, List.mem_singleton] at hp
    exact absurd (literal_injective hp) (driverFile_ne_allTests s)

theorem ready_of_rule (hnodup : (Manifest.outputs (i.soundEdges library)).Nodup) {writer : Edge}
    (hwriter : IsEdge i library writer) (hp : p ∈ writer.outputs) (name name' : RuleName)
    (h : writer.rule = name.text) (h' : e.rule = name'.text) (hlt : stageOf name < stageOf name') :
    i.Ready (i.soundEdges library) e p :=
  ready_of_writer hnodup (mem_soundEdges.mpr hwriter) hp (rank_lt_of_rule name name' h h' hlt)

theorem ready_generatedCode (hnodup : (Manifest.outputs (i.soundEdges library)).Nodup) (abi : Abi)
    (name : RuleName) (h : e.rule = name.text) (hlt : stageOf .generateCode < stageOf name) :
    i.Ready (i.soundEdges library) e (.literal (i.generatedCode abi)) :=
  ready_of_rule hnodup (.code (List.mem_map_of_mem (Abi.mem_all abi))) List.mem_cons_self
    .generateCode name rfl h hlt

theorem ready_object (hnodup : (Manifest.outputs (i.soundEdges library)).Nodup) {object : String}
    (hobject : object ∈ i.objects) :
    i.Ready (i.soundEdges library) i.linkEdge (.literal object) := by
  rcases List.mem_cons.mp hobject with rfl | hobject
  · exact ready_of_rule hnodup .host List.mem_cons_self .compileSource .linkCompiler rfl rfl
      (by decide)
  · obtain ⟨s, hs, rfl⟩ := List.mem_map.mp hobject
    exact ready_of_rule hnodup (.source hs) List.mem_cons_self .compileSource .linkCompiler rfl rfl
      (by decide)

theorem ready_test (hlibrary : i.IsLibraryEdge library)
    (hnodup : (Manifest.outputs (i.soundEdges library)).Nodup) (isFixture : Bool) (t : TestCase)
    (hp : p ∈ (i.testEdge isFixture t).reads) :
    i.Ready (i.soundEdges library) (i.testEdge isFixture t) p := by
  have hcases : p = inProject t.path ∨ p = .literal i.compiler ∨
      p = inProject i.project.tests.support := by
    cases isFixture
    · exact (by simpa [Edge.reads, testEdge] using hp : _ ∨ _).imp_right .inl
    · simpa [Edge.reads, testEdge] using hp
  rcases hcases with rfl | rfl | rfl
  · exact ready_of_isGiven hlibrary (isGiven_inProject _)
  · exact ready_of_rule hnodup .link List.mem_cons_self .linkCompiler .runTest rfl rfl (by decide)
  · exact ready_of_isGiven hlibrary (isGiven_inProject _)

theorem ready_scenario (hlibrary : i.IsLibraryEdge library)
    (hnodup : (Manifest.outputs (i.soundEdges library)).Nodup) {s : Scenario.Compiled}
    (hs : s ∈ i.scenarios) (he : e ∈ i.scenarioEdges s) (hp : p ∈ e.reads) :
    i.Ready (i.soundEdges library) e p := by
  rcases mem_scenarioEdges he with ⟨hrule, -, hreads⟩ | ⟨hrule, -, hreads⟩
  · simp only [hreads, List.mem_cons, List.not_mem_nil, or_false] at hp
    rcases hp with rfl | rfl | rfl
    · exact ready_driverFile hlibrary hs he hrule
    · exact ready_of_rule hnodup .libraryObject List.mem_cons_self .compileSource .compileDriver rfl
        hrule (by decide)
    · exact ready_of_rule hnodup .library (by simp [hlibrary.outputs]) .joinLibrary .compileDriver
        hlibrary.rule hrule (by decide)
  · rw [hreads, List.mem_singleton] at hp
    subst hp
    -- the writer is the other edge of the same scenario
    refine ready_of_writer hnodup (mem_soundEdges.mpr (.scenario hs List.mem_cons_self))
      List.mem_cons_self (rank_lt_of_place .compileDriver .runDriver rfl hrule rfl ?_)
    rw [place_of_mem hs List.mem_cons_self, place_of_mem hs he, hrule, if_pos rfl,
      if_neg (show RuleName.compileDriver.text ≠ RuleName.runDriver.text by decide)]
    omega

theorem ready_allTests (hnodup : (Manifest.outputs (i.soundEdges library)).Nodup)
    (hp : p ∈ i.allTestsEdge.reads) :
    i.Ready (i.soundEdges library) i.allTestsEdge p := by
  have hlast : ∀ (writer : Edge) (name : RuleName), writer.rule = name.text →
      i.rank writer < i.rank i.allTestsEdge := by
    intro writer name h
    refine rank_lt_of_stage ?_
    rw [stage_of_rule name h, stage_allTestsEdge]
    cases name <;> decide
  simp only [allTestsEdge, Edge.reads, allOutputs, List.append_nil, List.mem_map,
    List.mem_append] at hp
  obtain ⟨path, (⟨t, ht, rfl⟩ | ⟨t, ht, rfl⟩) | ⟨s, hs, rfl⟩, rfl⟩ := hp
  · exact ready_of_writer hnodup (mem_soundEdges.mpr (.fixture ht)) List.mem_cons_self
      (hlast _ .runTest rfl)
  · exact ready_of_writer hnodup (mem_soundEdges.mpr (.fuzz ht)) List.mem_cons_self
      (hlast _ .runTest rfl)
  · exact ready_of_writer hnodup
      (mem_soundEdges.mpr (.scenario hs (List.mem_cons_of_mem _ List.mem_cons_self)))
      List.mem_cons_self (hlast _ .runDriver rfl)

/-- **An edge only reads what stands in front of it**, provided that no path has two writers and
that no edge writes the tools. -/
theorem ready_of_mem_reads (hlibrary : i.IsLibraryEdge library)
    (hnodup : (Manifest.outputs (i.soundEdges library)).Nodup)
    (hpacker : .literal i.tools.packer ∉ i.declaredOutputs)
    (hgenerator : .literal i.tools.generator ∉ i.declaredOutputs) (he : IsEdge i library e)
    (hp : p ∈ e.reads) : i.Ready (i.soundEdges library) e p := by
  rw [← outputs_soundEdges hlibrary] at hpacker hgenerator
  cases he with
  | code h =>
    obtain ⟨abi, -, rfl⟩ := List.mem_map.mp h
    simp only [Edge.reads, List.append_nil, List.mem_append, List.mem_cons, List.not_mem_nil,
      or_false] at hp
    rcases hp with rfl | rfl | rfl
    · exact ready_of_isGiven hlibrary (isGiven_inSources _)
    · exact ready_of_rule hnodup .tool List.mem_cons_self .compileTool .generateCode rfl rfl
        (by decide)
    · exact ready_of_isGiven hlibrary (isGiven_inSources _)
  | host =>
    obtain rfl : p = .literal i.linkedCode := by simpa [Edge.reads, hostEdge] using hp
    exact ready_generatedCode hnodup _ .compileSource rfl (by decide)
  | @source s h =>
    have hcases : p = inSources s.path ∨ p = .literal i.project.includes.output := by
      simp only [Edge.reads, sourceEdge, List.append_nil, List.mem_append, List.mem_singleton] at hp
      refine hp.imp_right fun hp => ?_
      split_ifs at hp
      · exact List.mem_singleton.mp hp
      · cases hp
    rcases hcases with rfl | rfl
    · exact ready_of_isGiven hlibrary (isGiven_inSources _)
    · exact ready_of_rule hnodup .headers List.mem_cons_self .packHeaders .compileSource rfl rfl
        (by decide)
  | headers =>
    simp only [Edge.reads, headerEdge, List.append_nil, List.mem_append, List.mem_map,
      List.mem_singleton] at hp
    rcases hp with ⟨header, -, rfl⟩ | rfl
    · exact ready_of_isGiven hlibrary (isGiven_inProject _)
    · exact ready_of_notMem hpacker
  | library =>
    rcases hlibrary.reads p hp with hgiven | rfl | rfl | ⟨abi, rfl⟩
    · exact ready_of_isGiven hlibrary hgiven
    · exact ready_of_rule hnodup .headers List.mem_cons_self .packHeaders .joinLibrary rfl
        hlibrary.rule (by decide)
    · exact ready_of_notMem hpacker
    · exact ready_generatedCode hnodup abi .joinLibrary hlibrary.rule (by decide)
  | libraryObject =>
    obtain rfl : p = .literal i.librarySource := by simpa [Edge.reads, libraryObjectEdge] using hp
    exact ready_of_rule hnodup .library (by simp [hlibrary.outputs]) .joinLibrary .compileSource
      hlibrary.rule rfl (by decide)
  | link =>
    obtain ⟨object, hobject, rfl⟩ : ∃ object ∈ i.objects, .literal object = p := by
      simpa [Edge.reads, linkEdge] using hp
    exact ready_object hnodup hobject
  | tool =>
    obtain rfl : p = inSources i.project.codegen.tool := by simpa [Edge.reads, toolEdge] using hp
    exact ready_of_isGiven hlibrary (isGiven_inSources _)
  | fixture h => exact ready_test hlibrary hnodup true _ hp
  | fuzz h => exact ready_test hlibrary hnodup false _ hp
  | scenario hs h => exact ready_scenario hlibrary hnodup hs h hp
  | allTests => exact ready_allTests hnodup hp
  | regen =>
    simp only [Edge.reads, regenEdge, List.nil_append, List.append_nil, List.mem_append,
      List.mem_cons, List.not_mem_nil, or_false] at hp
    rcases hp with (rfl | rfl) | hp
    · exact ready_of_isGiven hlibrary (isGiven_inProject _)
    · exact ready_of_notMem hgenerator
    · obtain ⟨path, -, rfl⟩ := List.mem_map.mp hp
      exact ready_of_isGiven hlibrary (isGiven_inProject _)

end Reads

/-! ## The manifest -/

theorem outputs_ne_nil {e : Edge} (hlibrary : i.IsLibraryEdge library) (h : IsEdge i library e) :
    e.outputs ≠ [] := by
  cases h with
  | code h =>
    obtain ⟨abi, -, rfl⟩ := List.mem_map.mp h
    exact List.cons_ne_nil _ _
  | library => simp [hlibrary.outputs]
  | scenario hs h => rcases mem_scenarioEdges h with ⟨-, hout, -⟩ | ⟨-, hout, -⟩ <;> simp [hout]
  | _ => exact List.cons_ne_nil _ _

theorem manifest_of_nodup (hcheck : i.project.check = .ok ()) (hedge : i.libraryEdge = .ok library)
    (hlibrary : i.IsLibraryEdge library) (hnodup : i.declaredOutputs.Nodup)
    (hpacker : .literal i.tools.packer ∉ i.declaredOutputs)
    (hgenerator : .literal i.tools.generator ∉ i.declaredOutputs) :
    i.manifest = .ok (i.manifestOf (i.soundEdges library)) := by
  rw [← outputs_soundEdges hlibrary] at hnodup
  refine manifest_eq_ok_of_rank i.rank (edges_eq_soundEdges hcheck hedge)
    (fun e he => outputs_ne_nil hlibrary (mem_soundEdges.mp he)) hnodup
    (fun e he => rule_known hlibrary (mem_soundEdges.mp he)) ?_
    fun writer hwriter reader hreader p hp hread => ?_
  · exact Manifest.mem_outputs.mpr ⟨i.linkEdge, mem_soundEdges.mpr .link, List.mem_cons_self⟩
  · exact ready_of_mem_reads hlibrary hnodup hpacker hgenerator (mem_soundEdges.mp hreader) hread
      writer hwriter hp

theorem exists_manifest_of_nodup (hcheck : i.project.check = .ok ())
    (hnodup : i.declaredOutputs.Nodup) (hpacker : .literal i.tools.packer ∉ i.declaredOutputs)
    (hgenerator : .literal i.tools.generator ∉ i.declaredOutputs) :
    ∃ m, i.manifest = .ok m ∧ Manifest.outputs m.edges = i.declaredOutputs := by
  obtain ⟨library, hedge, hlibrary⟩ := libraryEdge_of_check hcheck
  exact ⟨_, manifest_of_nodup hcheck hedge hlibrary hnodup hpacker hgenerator,
    outputs_soundEdges hlibrary⟩

/-- **The graph of a project that passes its check can be built exactly if its outputs are pairwise
different**, and then it has these outputs. Otherwise it fails for a path that two of its edges
write, and for nothing else. -/
theorem exists_manifest_iff (i : Input) (hcheck : i.project.check = .ok ())
    (hpacker : .literal i.tools.packer ∉ i.declaredOutputs)
    (hgenerator : .literal i.tools.generator ∉ i.declaredOutputs) :
    ((∃ m, i.manifest = .ok m) ↔ i.declaredOutputs.Nodup) ∧
      (∀ m, i.manifest = .ok m → Manifest.outputs m.edges = i.declaredOutputs) ∧
      (¬ i.declaredOutputs.Nodup → ∃ path first second,
        i.manifest = .error (.manifest i.buildDirectory (.outputTwice path first second))) := by
  obtain ⟨library, hedge, hlibrary⟩ := libraryEdge_of_check hcheck
  have hedges := edges_eq_soundEdges hcheck hedge
  have houtputs : ∀ e ∈ i.soundEdges library, e.outputs ≠ [] := fun e he =>
    outputs_ne_nil hlibrary (mem_soundEdges.mp he)
  have hbuilt : i.declaredOutputs.Nodup → i.manifest = .ok (i.manifestOf (i.soundEdges library)) :=
    fun hnodup => manifest_of_nodup hcheck hedge hlibrary hnodup hpacker hgenerator
  have hrefused : ¬ i.declaredOutputs.Nodup → ∃ path first second,
      i.manifest = .error (.manifest i.buildDirectory (.outputTwice path first second)) := by
    intro hclash
    rw [← outputs_soundEdges hlibrary] at hclash
    exact manifest_eq_error_of_clash hedges houtputs hclash
  refine ⟨⟨?_, fun hnodup => ⟨_, hbuilt hnodup⟩⟩, ?_, hrefused⟩
  · rintro ⟨m, hm⟩
    by_contra hclash
    obtain ⟨path, first, second, herror⟩ := hrefused hclash
    rw [hm] at herror
    cases herror
  · intro m hm
    obtain ⟨edges, hsame, -, -, -, rfl⟩ := manifest_eq_ok_iff.mp hm
    rw [hedges] at hsame
    rw [← outputs_soundEdges hlibrary, List.map_injective_iff.mpr (fun _ _ => Except.ok.inj) hsame]
    rfl

/-! ## Names that coincide -/

namespace Sample

/-- A graph with a script that is named like the driver of another one, and with the given path for
the packed headers. -/
def graph (headers : String) : Input where
  project :=
    { general := ⟨"cc", "src", "out"⟩
      codegen := ⟨"gen.in", "gen", "tool.c", "gen.lua"⟩
      includes := ⟨"include", headers, some "main.c"⟩
      library := ⟨"lib", "cc", "cc.h", "LICENSE", "WIN", [⟨headers, some "out"⟩], []⟩
      tests := ⟨"test", "src/support.c", none, none, none, none⟩
      sources := [⟨"main.c", some "main"⟩, ⟨"parse.c", none⟩] }
  toolchain := ⟨.linux, .debug, ⟨"cc", "ld", "cc", "cc"⟩⟩
  tools := .inDirectory "/bin"
  buildDirectory := "out/ld"
  scenarios := ["a.scn", "a.scn.driver.c"].map fun script =>
    ⟨script, ⟨script, [], [], [], [], "main", []⟩, ""⟩

/-- The driver's name does no harm; headers that are packed into the compiler itself do. -/
theorem exists_manifest_graph :
    (graph "headers.h").project.check = .ok () ∧ (graph "cc").project.check = .ok () ∧
    (∃ m, (graph "headers.h").manifest = .ok m) ∧
    ∃ path first second, (graph "cc").manifest =
      .error (.manifest "out/ld" (.outputTwice path first second)) := by
  have hheaders : (graph "headers.h").project.check = .ok () := by decide +kernel
  have hcompiler : (graph "cc").project.check = .ok () := by decide +kernel
  refine ⟨hheaders, hcompiler, ?_, ?_⟩
  · exact (exists_manifest_iff (graph "headers.h") hheaders (by decide +kernel)
      (by decide +kernel)).1.mpr (by decide +kernel)
  · exact (exists_manifest_iff (graph "cc") hcompiler (by decide +kernel) (by decide +kernel)).2.2
      (by decide +kernel)

end Sample

end Input

end BuildPlan.Graph
