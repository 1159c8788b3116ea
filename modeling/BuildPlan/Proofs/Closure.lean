import BuildPlan.Generation.Plan
import BuildPlan.Proofs.Buildable

/-!
# Nothing that a build graph reads is missing

A path that an edge reads is given with the project, or is a tool, or is the source of a driver that
is generated beside the manifest, or is written by one other edge (`manifest_closed`). What a command
names besides `$in` and `$out` is named by its rule and not by the edge, so it is shown on its own
that every edge of the rule reads it.
-/

namespace BuildPlan

open Ninja (Edge EscapedPath Manifest)

namespace Graph

/-- Where a path that an edge of a manifest reads comes from. -/
inductive Provided (i : Input) (m : Manifest) (e : Edge) (p : EscapedPath) : Prop where
  | given (h : IsGiven p)
  | tool (path : String) (h : path = i.tools.generator ∨ path = i.tools.packer ∨
      path = i.tools.runner) (hp : p = .literal path)
  /-- No edge but one writes the path, and it is not the edge that reads it. -/
  | written (writer : Edge) (hother : writer ≠ e)
      (honly : m.edges.filter (p ∈ ·.outputs) = [writer])
  /-- The driver is among the files that are planned for the build directory, at this path. -/
  | driver (s : Scenario.Compiled) (hs : s ∈ i.scenarios) (hp : p = .literal (i.driverFile s))
      (hplanned : ∀ root files, Generation.planDirectory root i = .ok files →
        ⟨Path.join (Path.join root i.buildDirectory) (i.driverFile s), s.driver⟩ ∈ files)

namespace Input

variable {i : Input} {library : Edge} {m : Manifest} {e : Edge} {p : EscapedPath}

theorem exists_soundEdges (hcheck : i.project.check = .ok ()) (hm : i.manifest = .ok m) :
    ∃ library, i.libraryEdge = .ok library ∧ i.IsLibraryEdge library ∧
      (Manifest.outputs (i.soundEdges library)).Nodup ∧ m.check = .ok () ∧
      m = i.manifestOf (i.soundEdges library) := by
  obtain ⟨library, hedge, hlibrary⟩ := libraryEdge_of_check hcheck
  obtain ⟨edges, hedges, -, hnodup, hchecked, rfl⟩ := manifest_eq_ok_iff.mp hm
  obtain rfl : edges = i.soundEdges library := by
    rw [edges_eq_soundEdges hcheck hedge] at hedges
    exact (List.map_injective_iff.mpr (fun _ _ => Except.ok.inj) hedges).symm
  exact ⟨library, hedge, hlibrary, hnodup, hchecked, rfl⟩

/-! ## Where the reads of an edge come from -/

/-- Some edge of the graph writes the path. -/
def Written (i : Input) (library : Edge) (p : EscapedPath) : Prop :=
  ∃ writer, IsEdge i library writer ∧ p ∈ writer.outputs

theorem written_generatedCode (abi : Abi) : i.Written library (.literal (i.generatedCode abi)) :=
  ⟨_, .code (List.mem_map_of_mem (Abi.mem_all abi)), List.mem_cons_self⟩

theorem written_headers : i.Written library (.literal i.project.includes.output) :=
  ⟨_, .headers, List.mem_cons_self⟩

theorem written_compiler : i.Written library (.literal i.compiler) :=
  ⟨_, .link, List.mem_cons_self⟩

theorem written_object {object : String} (h : object ∈ i.objects) :
    i.Written library (.literal object) := by
  rcases List.mem_cons.mp h with rfl | h
  · exact ⟨_, .host, List.mem_cons_self⟩
  · obtain ⟨s, hs, rfl⟩ := List.mem_map.mp h
    exact ⟨_, .source hs, List.mem_cons_self⟩

theorem written_library (hlibrary : i.IsLibraryEdge library) {path : String}
    (h : path = i.librarySource ∨ path = i.libraryHeader) :
    i.Written library (.literal path) := by
  refine ⟨library, .library, ?_⟩
  rw [hlibrary.outputs]
  rcases h with rfl | rfl
  · exact List.mem_cons_self
  · exact List.mem_cons_of_mem _ List.mem_cons_self

theorem written_test (h : p ∈ i.allTestsEdge.reads) : i.Written library p := by
  simp only [allTestsEdge, Edge.reads, allOutputs, List.append_nil, List.mem_map,
    List.mem_append] at h
  obtain ⟨path, (⟨t, ht, rfl⟩ | ⟨t, ht, rfl⟩) | ⟨s, hs, rfl⟩, rfl⟩ := h
  · exact ⟨_, .fixture ht, List.mem_cons_self⟩
  · exact ⟨_, .fuzz ht, List.mem_cons_self⟩
  · exact ⟨_, .scenario hs (List.mem_cons_of_mem _ List.mem_cons_self), List.mem_cons_self⟩

/-- A path that is there without any edge: given with the project, a tool that is called, or the
source of a driver. -/
inductive Present (i : Input) (p : EscapedPath) : Prop where
  | given (h : IsGiven p)
  | generator (hp : p = .literal i.tools.generator)
  | packer (hp : p = .literal i.tools.packer)
  | driver (s : Scenario.Compiled) (hs : s ∈ i.scenarios) (hp : p = .literal (i.driverFile s))

theorem present_inProject (path : String) : i.Present (inProject path) :=
  .given (isGiven_inProject path)

theorem present_inSources (path : String) : i.Present (inSources path) :=
  .given (isGiven_inSources path)

theorem source_of_test (isFixture : Bool) (t : TestCase)
    (hp : p ∈ (i.testEdge isFixture t).reads) : i.Present p ∨ i.Written library p := by
  have hcases : p = inProject t.path ∨ p = .literal i.compiler ∨
      p = inProject i.project.tests.support := by
    cases isFixture
    · exact (by simpa [Edge.reads, testEdge] using hp : _ ∨ _).imp_right .inl
    · simpa [Edge.reads, testEdge] using hp
  rcases hcases with rfl | rfl | rfl
  · exact .inl (present_inProject _)
  · exact .inr written_compiler
  · exact .inl (present_inProject _)

theorem source_of_scenario (hlibrary : i.IsLibraryEdge library) {s : Scenario.Compiled}
    (hs : s ∈ i.scenarios) (he : e ∈ i.scenarioEdges s) (hp : p ∈ e.reads) :
    i.Present p ∨ i.Written library p := by
  rcases mem_scenarioEdges he with ⟨-, -, hreads⟩ | ⟨-, -, hreads⟩
  · simp only [hreads, List.mem_cons, List.not_mem_nil, or_false] at hp
    rcases hp with rfl | rfl | rfl
    · exact .inl (.driver s hs rfl)
    · exact .inr ⟨_, .libraryObject, List.mem_cons_self⟩
    · exact .inr (written_library hlibrary (.inr rfl))
  · rw [hreads, List.mem_singleton] at hp
    subst hp
    exact .inr ⟨_, .scenario hs List.mem_cons_self, List.mem_cons_self⟩

theorem source_of_read (hlibrary : i.IsLibraryEdge library) (he : IsEdge i library e)
    (hp : p ∈ e.reads) : i.Present p ∨ i.Written library p := by
  cases he with
  | code h =>
    obtain ⟨abi, -, rfl⟩ := List.mem_map.mp h
    simp only [Edge.reads, List.append_nil, List.mem_append, List.mem_cons, List.not_mem_nil,
      or_false] at hp
    rcases hp with rfl | rfl | rfl
    · exact .inl (present_inSources _)
    · exact .inr ⟨_, .tool, List.mem_cons_self⟩
    · exact .inl (present_inSources _)
  | host =>
    obtain rfl : p = .literal i.linkedCode := by simpa [Edge.reads, hostEdge] using hp
    exact .inr (written_generatedCode _)
  | @source s h =>
    simp only [Edge.reads, sourceEdge, List.append_nil, List.mem_append, List.mem_singleton] at hp
    rcases hp with rfl | hp
    · exact .inl (present_inSources _)
    · split_ifs at hp
      · obtain rfl := List.mem_singleton.mp hp
        exact .inr written_headers
      · cases hp
  | headers =>
    simp only [Edge.reads, headerEdge, List.append_nil, List.mem_append, List.mem_map,
      List.mem_singleton] at hp
    rcases hp with ⟨header, -, rfl⟩ | rfl
    · exact .inl (present_inProject _)
    · exact .inl (.packer rfl)
  | library =>
    rcases hlibrary.reads p hp with hgiven | rfl | rfl | ⟨abi, rfl⟩
    · exact .inl (.given hgiven)
    · exact .inr written_headers
    · exact .inl (.packer rfl)
    · exact .inr (written_generatedCode abi)
  | libraryObject =>
    obtain rfl : p = .literal i.librarySource := by simpa [Edge.reads, libraryObjectEdge] using hp
    exact .inr (written_library hlibrary (.inl rfl))
  | link =>
    obtain ⟨object, hobject, rfl⟩ : ∃ object ∈ i.objects, .literal object = p := by
      simpa [Edge.reads, linkEdge] using hp
    exact .inr (written_object hobject)
  | tool =>
    obtain rfl : p = inSources i.project.codegen.tool := by simpa [Edge.reads, toolEdge] using hp
    exact .inl (present_inSources _)
  | fixture h => exact source_of_test true _ hp
  | fuzz h => exact source_of_test false _ hp
  | scenario hs h => exact source_of_scenario hlibrary hs h hp
  | allTests => exact .inr (written_test hp)
  | regen =>
    simp only [Edge.reads, regenEdge, List.nil_append, List.append_nil, List.mem_append,
      List.mem_cons, List.not_mem_nil, or_false] at hp
    rcases hp with (rfl | rfl) | hp
    · exact .inl (present_inProject _)
    · exact .inl (.generator rfl)
    · obtain ⟨path, -, rfl⟩ := List.mem_map.mp hp
      exact .inl (present_inProject _)

/-! ## What commands name -/

/-- What the build makes and a rule calls for by name, in its command or, for the header of the
library, by the directory that the command looks headers up in. -/
def products (i : Input) : RuleName → List String
  | .generateCode => [i.assemblerTool]
  | .joinLibrary => [i.generatedCode .win64, i.generatedCode .sysV]
  | .runTest => [i.compiler]
  | .compileDriver => [i.libraryHeader]
  | .compileSource | .linkCompiler | .compileTool | .packHeaders | .runDriver | .regenerate => []

theorem generatedCode_mem_library (h : i.libraryEdge = .ok library) (abi : Abi) :
    .literal (i.generatedCode abi) ∈ library.reads := by
  rw [libraryEdge] at h
  split at h
  · cases h
  · obtain rfl := Except.ok.inj h
    have hcode : EscapedPath.literal (i.generatedCode abi) ∈
        Abi.all.map fun abi => EscapedPath.literal (i.generatedCode abi) :=
      List.mem_map_of_mem (Abi.mem_all abi)
    simp only [Edge.reads, List.mem_append]
    exact .inl (.inr (.inl hcode))

theorem products_mem_reads (hedge : i.libraryEdge = .ok library)
    (hlibrary : i.IsLibraryEdge library) (he : IsEdge i library e) {name : RuleName}
    (hrule : e.rule = name.text) {product : String} (hproduct : product ∈ i.products name) :
    .literal product ∈ e.reads := by
  have hname : ∀ other : RuleName, e.rule = other.text → name = other := fun other hother =>
    RuleName.text_injective (hrule.symm.trans hother)
  cases he with
  | code h =>
    obtain rfl := hname .generateCode (rule_of_mem_codegenEdges h)
    obtain ⟨abi, -, rfl⟩ := List.mem_map.mp h
    obtain rfl := List.mem_singleton.mp hproduct
    simp [Edge.reads]
  | library =>
    obtain rfl := hname .joinLibrary hlibrary.rule
    rcases List.mem_pair.mp hproduct with rfl | rfl
    · exact generatedCode_mem_library hedge .win64
    · exact generatedCode_mem_library hedge .sysV
  | fixture h | fuzz h =>
    obtain rfl := hname .runTest rfl
    obtain rfl := List.mem_singleton.mp hproduct
    simp [Edge.reads, testEdge]
  | scenario hs h =>
    rcases mem_scenarioEdges h with ⟨hdriver, -, hreads⟩ | ⟨hrun, -, -⟩
    · obtain rfl := hname .compileDriver hdriver
      obtain rfl := List.mem_singleton.mp hproduct
      simp [hreads]
    · obtain rfl := hname .runDriver hrun
      cases hproduct
  | host | source h | libraryObject =>
    obtain rfl := hname .compileSource rfl
    cases hproduct
  | headers =>
    obtain rfl := hname .packHeaders rfl
    cases hproduct
  | link =>
    obtain rfl := hname .linkCompiler rfl
    cases hproduct
  | tool =>
    obtain rfl := hname .compileTool rfl
    cases hproduct
  | allTests =>
    have hphony : ∀ other : RuleName, Ninja.phony ≠ other.text := by
      intro other
      cases other <;> decide
    exact absurd hrule (hphony name)
  | regen =>
    obtain rfl := hname .regenerate rfl
    cases hproduct

theorem declared?_of_rule {edges : List Edge} {name : RuleName} (h : e.rule = name.text) :
    ∃ rule, (i.manifestOf edges).declared? e.rule = some rule ∧ rule.command = i.command name := by
  have hrules : (i.manifestOf edges).rules = i.rules := rfl
  rw [h, Manifest.declared?, hrules, rules]
  cases name <;> simp [plainRule, RuleName.text]

/-- The rule of an edge has the given command, and the edge reads the given products. -/
def Calls (m : Manifest) (e : Edge) (command : String) (products : List String) : Prop :=
  ∃ rule, m.declared? e.rule = some rule ∧ rule.command = command ∧
    ∀ product ∈ products, .literal product ∈ e.reads

theorem calls_of_rule (hedge : i.libraryEdge = .ok library) (hlibrary : i.IsLibraryEdge library)
    (he : IsEdge i library e) {edges : List Edge} {name : RuleName} (hrule : e.rule = name.text) :
    Calls (i.manifestOf edges) e (i.command name) (i.products name) := by
  obtain ⟨rule, hdeclared, hcommand⟩ := declared?_of_rule hrule
  refine ⟨rule, hdeclared, hcommand, ?_⟩
  intro product hproduct
  exact products_mem_reads hedge hlibrary he hrule hproduct

/-! ## The graph as a whole -/

theorem driver_planned {s : Scenario.Compiled} (hs : s ∈ i.scenarios) {root : String}
    {files : List GeneratedFile} (h : Generation.planDirectory root i = .ok files) :
    ⟨Path.join (Path.join root i.buildDirectory) (i.driverFile s), s.driver⟩ ∈ files := by
  unfold Generation.planDirectory at h
  split at h
  · cases h
  · obtain rfl := Except.ok.inj h
    exact List.mem_append_left _ (List.mem_map_of_mem hs)

theorem provided_of_present (h : i.Present p) : Provided i m e p := by
  cases h with
  | given h => exact .given h
  | generator hp => exact .tool _ (.inl rfl) hp
  | packer hp => exact .tool _ (.inr (.inl rfl)) hp
  | driver s hs hp => exact .driver s hs hp fun _ _ => driver_planned hs

theorem provided_of_written (hnodup : (Manifest.outputs m.edges).Nodup) (hcheck : m.check = .ok ())
    (hsame : m.edges = i.soundEdges library) (hread : p ∈ e.reads) (h : i.Written library p) :
    Provided i m e p := by
  obtain ⟨writer, hwriter, hp⟩ := h
  have hmem : writer ∈ m.edges := by
    rw [hsame]
    exact mem_soundEdges.mpr hwriter
  refine .written writer ?_ (Manifest.filter_writers hnodup hmem hp)
  rintro rfl
  exact Manifest.notMem_reads_of_check hnodup hcheck hmem hp hread

/-- **A build graph is closed.** In the manifest of a project that passes its check, everything that
an edge reads is provided, and an edge reads the products that the command of its rule names. -/
theorem manifest_closed (hcheck : i.project.check = .ok ()) (hm : i.manifest = .ok m)
    (he : e ∈ m.edges) :
    (∀ p ∈ e.reads, Provided i m e p) ∧
    (e.rule = RuleName.generateCode.text → Calls m e
      ("./" ++ i.assemblerTool ++ " $root/" ++ i.project.codegen.script ++ " -D $abi -o $out $in")
      [i.assemblerTool]) ∧
    (e.rule = RuleName.joinLibrary.text → Calls m e
      (toolWord i.tools.packer ++ " amalg --dir " ++ i.project.library.dir ++ " --name " ++
        i.project.library.name ++ " --header $root/" ++ i.project.library.header ++
        " --license $top/" ++ i.project.library.license ++ " --switch " ++
        i.project.library.switch ++ " --win " ++ i.generatedCode .win64 ++ " --sysv " ++
        i.generatedCode .sysV ++ " $in")
      [i.generatedCode .win64, i.generatedCode .sysV]) ∧
    (e.rule = RuleName.runTest.text → Calls m e
      (toolWord i.tools.runner ++ " $top " ++ i.buildDirectory ++ "/" ++ i.compiler ++ " $data")
      [i.compiler]) ∧
    (e.rule = RuleName.compileDriver.text → Calls m e
      i.toolchain.commands.driver [i.libraryHeader]) := by
  obtain ⟨library, hedge, hlibrary, hnodup, hchecked, rfl⟩ := exists_soundEdges hcheck hm
  have hisEdge : IsEdge i library e := mem_soundEdges.mp he
  have hcalls : ∀ name : RuleName, e.rule = name.text →
      Calls (i.manifestOf (i.soundEdges library)) e (i.command name) (i.products name) :=
    fun name hrule => calls_of_rule hedge hlibrary hisEdge hrule
  have hcode : i.command .generateCode =
      "./" ++ i.assemblerTool ++ " $root/" ++ i.project.codegen.script ++
        " -D $abi -o $out $in" := by
    simp only [command, conventionVariable, String.append_assoc]
    rfl
  have htest : i.command .runTest =
      toolWord i.tools.runner ++ " $top " ++ i.buildDirectory ++ "/" ++ i.compiler ++ " $data" := by
    simp only [command, recordVariable, String.append_assoc]
    rfl
  refine ⟨?_, ?_, hcalls .joinLibrary, ?_, hcalls .compileDriver⟩
  · intro p hp
    rcases source_of_read hlibrary hisEdge hp with hpresent | hwritten
    · exact provided_of_present hpresent
    · exact provided_of_written hnodup hchecked rfl hp hwritten
  · rw [← hcode]
    exact hcalls .generateCode
  · rw [← htest]
    exact hcalls .runTest

namespace Sample

/-- A script named like the driver of another one: the other driver is both planned and written. -/
theorem manifest_closed_graph :
    ∃ m e, (graph "headers.h").manifest = .ok m ∧ e ∈ m.edges ∧
      e.rule = RuleName.compileDriver.text ∧ (∀ p ∈ e.reads, Provided (graph "headers.h") m e p) ∧
      Calls m e "cc" [(graph "headers.h").libraryHeader] := by
  have hcheck : (graph "headers.h").project.check = .ok () := by decide +kernel
  obtain ⟨library, hedge, hlibrary⟩ := libraryEdge_of_check hcheck
  have hnodup : (Manifest.outputs ((graph "headers.h").soundEdges library)).Nodup := by
    rw [outputs_soundEdges hlibrary]
    decide +kernel
  have hm : (graph "headers.h").manifest =
      .ok ((graph "headers.h").manifestOf ((graph "headers.h").soundEdges library)) := by
    refine manifest_eq_ok_of_rank (graph "headers.h").rank (edges_eq_soundEdges hcheck hedge)
      (fun e he => outputs_ne_nil hlibrary (mem_soundEdges.mp he)) hnodup
      (fun e he => rule_known hlibrary (mem_soundEdges.mp he)) ?_ ?_
    · exact Manifest.mem_outputs.mpr ⟨_, mem_soundEdges.mpr .link, List.mem_cons_self⟩
    · intro writer hwriter reader hreader p hp hread
      exact ready_of_mem_reads hlibrary hnodup (by decide +kernel) (by decide +kernel)
        (mem_soundEdges.mp hreader) hread writer hwriter hp
  have he : _ ∈ (graph "headers.h").soundEdges library :=
    mem_soundEdges.mpr (.scenario (List.mem_cons_self (l := _)) List.mem_cons_self)
  obtain ⟨hreads, -, -, -, hdriver⟩ := manifest_closed hcheck hm he
  exact ⟨_, _, hm, he, rfl, hreads, hdriver rfl⟩

end Sample

end Input

end Graph

end BuildPlan
