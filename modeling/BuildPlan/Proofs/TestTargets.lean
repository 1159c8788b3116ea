import BuildPlan.Proofs.Buildable
import BuildPlan.Proofs.Token
import Mathlib.Data.List.Flatten

/-!
# Every test reports once

In the manifest of a graph each test has one edge of its own. The edge of a fixture or of a fuzz
case carries the record of just that test; that of a scenario runs the scenario's driver. The target
of all tests reads these outputs, and no other edge runs a test (`tests_report_once`). The project
need not pass its check for this: that the manifest is there is enough, since then no path is
written twice.
-/

namespace BuildPlan.Graph

open Ninja (Edge EscapedPath Manifest)

namespace Input

variable {i : Input} {m : Manifest} {e : Edge}

/-! ## The edges in front of the tests -/

/-- The rules by which the compiler and the library are built. -/
def productRules : List RuleName :=
  [.generateCode, .compileSource, .packHeaders, .joinLibrary, .linkCompiler, .compileTool]

theorem rule_of_mem_openingEdges (h : .ok e ∈ i.openingEdges) :
    ∃ name ∈ productRules, e.rule = name.text := by
  simp only [openingEdges, List.mem_append, List.mem_cons, List.mem_map, List.not_mem_nil, or_false,
    Except.ok.injEq, exists_eq_right] at h
  rcases h with ((h | rfl) | h) | rfl | h | rfl | rfl | rfl
  · exact ⟨.generateCode, by decide, rule_of_mem_codegenEdges h⟩
  · exact ⟨.compileSource, by decide, rfl⟩
  · exact ⟨.compileSource, by decide, rule_of_mem_sourceEdgesFrom h⟩
  · exact ⟨.packHeaders, by decide, rfl⟩
  · rw [libraryEdge] at h
    split at h
    · cases h
    · obtain rfl := Except.ok.inj h
      exact ⟨.joinLibrary, by decide, rfl⟩
  · exact ⟨.compileSource, by decide, rfl⟩
  · exact ⟨.linkCompiler, by decide, rfl⟩
  · exact ⟨.compileTool, by decide, rfl⟩

/-- The edges of a manifest are some that build the compiler and the library, and behind them those
of the tests. -/
theorem exists_openingEdges (hm : i.manifest = .ok m) :
    ∃ opening, (∀ e ∈ opening, ∃ name ∈ productRules, e.rule = RuleName.text name) ∧
      m.edges = opening ++ i.closingEdges ∧ (Manifest.outputs m.edges).Nodup := by
  obtain ⟨edges, hedges, -, hnodup, -, rfl⟩ := manifest_eq_ok_iff.mp hm
  rw [edges_eq] at hedges
  obtain ⟨opening, closing, rfl, hopening, hclosing⟩ := List.append_eq_map_iff.mp hedges
  -- none of the last edges can fail, so those of the manifest are the same
  obtain rfl := List.map_injective_iff.mpr (fun _ _ => Except.ok.inj) hclosing
  refine ⟨opening, fun e he => rule_of_mem_openingEdges (i := i) ?_, rfl, hnodup⟩
  rw [← hopening]
  exact List.mem_map_of_mem he

/-! ## The edges of a rule -/

/-- The edges of a manifest that use a rule, in order. -/
def uses (m : Manifest) (rule : String) : List Edge :=
  m.edges.filter (·.rule = rule)

theorem uses_eq (hm : i.manifest = .ok m) {rule : String}
    (hrule : ∀ name ∈ productRules, RuleName.text name ≠ rule) :
    uses m rule = i.closingEdges.filter (·.rule = rule) := by
  obtain ⟨opening, hopening, hedges, -⟩ := exists_openingEdges hm
  have hnone : opening.filter (·.rule = rule) = [] := by
    rw [List.filter_eq_nil_iff]
    intro e he hsame
    obtain ⟨name, hname, htext⟩ := hopening e he
    exact hrule name hname (htext.symm.trans (of_decide_eq_true hsame))
  rw [uses, hedges, List.filter_append, hnone, List.nil_append]

theorem filter_of_rule {edges : List Edge} {own : String} (h : ∀ e ∈ edges, e.rule = own)
    (rule : String) : edges.filter (·.rule = rule) = if own = rule then edges else [] := by
  split_ifs with hrule
  · exact List.filter_eq_self.mpr fun e he => decide_eq_true ((h e he).trans hrule)
  · exact List.filter_eq_nil_iff.mpr fun e he hsame =>
      hrule ((h e he).symm.trans (of_decide_eq_true hsame))

theorem rule_of_mem_tests (isFixture : Bool) (tests : List TestCase) :
    ∀ e ∈ tests.map (i.testEdge isFixture), e.rule = RuleName.runTest.text := by
  intro e he
  obtain ⟨t, -, rfl⟩ := List.mem_map.mp he
  rfl

theorem filter_closingEdges (i : Input) (rule : String) :
    i.closingEdges.filter (·.rule = rule) =
      (if RuleName.runTest.text = rule then
        i.fixtures.map (i.testEdge true) ++ i.fuzzCases.map (i.testEdge false) else []) ++
      i.scenarios.flatMap (fun s => (i.scenarioEdges s).filter (·.rule = rule)) ++
      [i.allTestsEdge, i.regenEdge].filter (·.rule = rule) := by
  rw [closingEdges, List.filter_append, List.filter_append, List.filter_append,
    filter_of_rule (rule_of_mem_tests true _), filter_of_rule (rule_of_mem_tests false _),
    List.filter_flatMap]
  split_ifs <;> rfl

theorem uses_runTest (hm : i.manifest = .ok m) :
    uses m RuleName.runTest.text =
      i.fixtures.map (i.testEdge true) ++ i.fuzzCases.map (i.testEdge false) := by
  have hscenarios : ∀ s, (i.scenarioEdges s).filter (·.rule = RuleName.runTest.text) = [] :=
    fun _ => rfl
  have hlast : [i.allTestsEdge, i.regenEdge].filter (·.rule = RuleName.runTest.text) = [] := rfl
  rw [uses_eq hm (by decide), filter_closingEdges, if_pos rfl, hlast, List.append_nil]
  simp [hscenarios]

theorem uses_of_scenarios (hm : i.manifest = .ok m) {rule : String}
    {edgeOf : Scenario.Compiled → Edge}
    (hproducts : ∀ name ∈ productRules, RuleName.text name ≠ rule)
    (htests : RuleName.runTest.text ≠ rule)
    (hlast : [i.allTestsEdge, i.regenEdge].filter (·.rule = rule) = [])
    (hedge : ∀ s, (i.scenarioEdges s).filter (·.rule = rule) = [edgeOf s]) :
    uses m rule = i.scenarios.map edgeOf := by
  rw [uses_eq hm hproducts, filter_closingEdges, if_neg htests, hlast, List.nil_append,
    List.append_nil, List.map_eq_flatMap]
  simp only [hedge]

theorem uses_compileDriver (hm : i.manifest = .ok m) :
    (uses m RuleName.compileDriver.text).map (·.outputs) =
      i.scenarios.map fun s => [.literal (i.driverProgram s)] := by
  rw [uses_of_scenarios hm (by decide) (by decide) rfl fun _ => rfl, List.map_map]
  rfl

theorem uses_runDriver (hm : i.manifest = .ok m) :
    (uses m RuleName.runDriver.text).map (·.outputs) =
      i.scenarios.map fun s => [.literal s.script] := by
  rw [uses_of_scenarios hm (by decide) (by decide) rfl fun _ => rfl, List.map_map]
  rfl

theorem uses_phony (hm : i.manifest = .ok m) : uses m Ninja.phony = [i.allTestsEdge] := by
  have hscenarios : ∀ s, (i.scenarioEdges s).filter (·.rule = Ninja.phony) = [] := fun _ => rfl
  have hlast : [i.allTestsEdge, i.regenEdge].filter (·.rule = Ninja.phony) = [i.allTestsEdge] := rfl
  rw [uses_eq hm (by decide), filter_closingEdges, if_neg (by decide), hlast]
  simp [hscenarios]

/-! ## The edge of a test -/

theorem writers_of_closing (hm : i.manifest = .ok m) (he : e ∈ i.closingEdges) {p : EscapedPath}
    (hp : p ∈ e.outputs) : m.edges.filter (p ∈ ·.outputs) = [e] := by
  obtain ⟨opening, -, hedges, hnodup⟩ := exists_openingEdges hm
  refine Manifest.filter_writers hnodup ?_ hp
  rw [hedges]
  exact List.mem_append_right opening he

theorem mem_closingEdges_of_test {t : TestCase} (ht : t ∈ i.fixtures ++ i.fuzzCases) :
    ∃ isFixture, i.testEdge isFixture t ∈ i.closingEdges := by
  rcases List.mem_append.mp ht with ht | ht
  · exact ⟨true, by simp [closingEdges, List.mem_map_of_mem ht]⟩
  · exact ⟨false, by simp [closingEdges, List.mem_map_of_mem ht]⟩

theorem mem_closingEdges_of_scenario {s : Scenario.Compiled} (hs : s ∈ i.scenarios)
    (he : e ∈ i.scenarioEdges s) : e ∈ i.closingEdges := by
  have hmem : e ∈ i.scenarios.flatMap i.scenarioEdges := List.mem_flatMap.mpr ⟨s, hs, he⟩
  simp [closingEdges, hmem]

theorem ofToken_record (t : TestCase) : TestRecord.ofToken t.record.token = .ok t.record := by
  have hread := TestRecord.ofToken_blanks t.record "" "" (by simp) (by simp)
  have hversion : ¬ t.record.schema > TestRecord.currentSchema := UInt32.lt_irrefl _
  rw [if_neg hversion] at hread
  simpa using hread

/-! ## The target of all tests -/

theorem outputs_tests (isFixture : Bool) (tests : List TestCase) :
    Manifest.outputs (tests.map (i.testEdge isFixture)) =
      (tests.map (·.path)).map .literal := by
  induction tests with
  | nil => rfl
  | cons t tests ih =>
    rw [List.map_cons, List.map_cons, List.map_cons, ← ih]
    rfl

theorem scripts_sublist (i : Input) :
    ((i.scenarios.map (·.script)).map EscapedPath.literal).Sublist
      (Manifest.outputs (i.scenarios.flatMap i.scenarioEdges)) := by
  have hboth : ∀ s ∈ i.scenarios, [EscapedPath.literal s.script].Sublist
      (Manifest.outputs (i.scenarioEdges s)) := by
    intro s _
    exact List.sublist_append_right [EscapedPath.literal (i.driverProgram s)] _
  rw [List.map_map, List.map_eq_flatMap, Manifest.outputs, List.flatMap_assoc]
  exact List.Sublist.flatMap_right i.scenarios hboth

theorem allOutputs_sublist (i : Input) :
    i.allOutputs.Sublist (Manifest.outputs i.closingEdges) := by
  rw [allOutputs, closingEdges, Manifest.outputs_append, Manifest.outputs_append,
    Manifest.outputs_append, outputs_tests, outputs_tests, List.map_append, List.map_append]
  exact (((List.Sublist.refl _).append i.scripts_sublist).trans (List.sublist_append_left _ _))

/-- The target of all tests reads nothing twice, since the edges of the tests write nothing
twice. -/
theorem nodup_allOutputs (hm : i.manifest = .ok m) : i.allOutputs.Nodup := by
  obtain ⟨opening, -, hedges, hnodup⟩ := exists_openingEdges hm
  rw [hedges, Manifest.outputs_append] at hnodup
  exact (List.Nodup.of_append_right hnodup).sublist i.allOutputs_sublist

/-- **Every test has one edge that reports it, and arrives there unchanged.** The test run of a
fixture or of a fuzz case carries a token that is read back as the record of the test; a scenario
runs a driver that another edge has compiled. The target of all tests reads these outputs in the
order of the tests, each once, and there are no further edges of these rules. -/
theorem tests_report_once (hm : i.manifest = .ok m) :
    (∀ t ∈ i.fixtures ++ i.fuzzCases, ∃ e data,
      m.edges.filter (.literal t.path ∈ ·.outputs) = [e] ∧ e.rule = RuleName.runTest.text ∧
        e.outputs = [.literal t.path] ∧ e.bindings = [(recordVariable, data)] ∧
        TestRecord.ofToken data = .ok t.record) ∧
    (∀ s ∈ i.scenarios, ∃ run driver,
      m.edges.filter (.literal s.script ∈ ·.outputs) = [run] ∧
        run.rule = RuleName.runDriver.text ∧ run.inputs = [.literal (i.driverProgram s)] ∧
        m.edges.filter (.literal (i.driverProgram s) ∈ ·.outputs) = [driver] ∧
        driver.rule = RuleName.compileDriver.text ∧
        .literal (i.driverFile s) ∈ driver.inputs) ∧
    (∃ target, uses m Ninja.phony = [target] ∧ target.outputs = [.literal allTests] ∧
      target.inputs = ((i.fixtures.map (·.path) ++ i.fuzzCases.map (·.path)) ++
        i.scenarios.map (·.script)).map .literal ∧
      target.inputs.Nodup) ∧
    (uses m RuleName.runTest.text).map (·.outputs) =
      (i.fixtures ++ i.fuzzCases).map (fun t => [.literal t.path]) ∧
    (uses m RuleName.compileDriver.text).map (·.outputs) =
      i.scenarios.map (fun s => [.literal (i.driverProgram s)]) ∧
    (uses m RuleName.runDriver.text).map (·.outputs) =
      i.scenarios.map (fun s => [.literal s.script]) := by
  refine ⟨?_, ?_, ?_, ?_, uses_compileDriver hm, uses_runDriver hm⟩
  · intro t ht
    obtain ⟨isFixture, hmem⟩ := mem_closingEdges_of_test ht
    exact ⟨_, _, writers_of_closing hm hmem List.mem_cons_self, rfl, rfl, rfl, ofToken_record t⟩
  · intro s hs
    have hdriver := mem_closingEdges_of_scenario hs List.mem_cons_self
    have hrun := mem_closingEdges_of_scenario hs (List.mem_cons_of_mem _ List.mem_cons_self)
    exact ⟨_, _, writers_of_closing hm hrun List.mem_cons_self, rfl, rfl,
      writers_of_closing hm hdriver List.mem_cons_self, rfl, List.mem_cons_self⟩
  · exact ⟨i.allTestsEdge, uses_phony hm, rfl, rfl, nodup_allOutputs hm⟩
  · rw [uses_runTest hm, List.map_append, List.map_append, List.map_map, List.map_map]
    rfl

namespace Sample

/-- A graph with one test of each kind; the name of the fuzz case has a blank in it. -/
def tested : Input :=
  { graph "headers.h" with
    fixtures := [⟨"test/sum.c", "-run test/sum.c", .exit 3, "6\n", true⟩]
    fuzzCases := [⟨"fuzz/case 1", "fuzz/case 1", .noCrash, "", true⟩] }

theorem tests_report_once_tested :
    ∃ m, tested.manifest = .ok m ∧ ∃ e data,
      m.edges.filter (.literal "fuzz/case 1" ∈ ·.outputs) = [e] ∧
        e.rule = RuleName.runTest.text ∧ e.outputs = [.literal "fuzz/case 1"] ∧
        e.bindings = [(recordVariable, data)] ∧
        TestRecord.ofToken data = .ok (.current "fuzz/case 1" .noCrash "") := by
  have hcheck : tested.project.check = .ok () := by decide +kernel
  obtain ⟨library, hedge, hlibrary⟩ := libraryEdge_of_check hcheck
  have hnodup : tested.declaredOutputs.Nodup := by decide +kernel
  have hm := manifest_of_nodup hcheck hedge hlibrary hnodup (by decide +kernel) (by decide +kernel)
  exact ⟨_, hm, (tests_report_once hm).1 ⟨"fuzz/case 1", "fuzz/case 1", .noCrash, "", true⟩
    (List.mem_cons_of_mem _ List.mem_cons_self)⟩

end Sample

end Input

end BuildPlan.Graph
