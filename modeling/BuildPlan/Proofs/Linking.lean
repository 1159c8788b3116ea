import BuildPlan.Proofs.Placement
import BuildPlan.Proofs.TestTargets

/-!
# What is compiled, linked and joined

A source without a variant goes into every build and into the library, one with a variant only into
the builds of that variant. So the edges of a graph follow from what its profile takes, the sources
and the fuzz cases (`edges_eq_edgesTaking`), and graphs of one project and platform agree in
everything else (`sources_taken`).
-/

namespace BuildPlan

open Ninja (Edge EscapedPath Manifest)

/-- The variant of the builds of a profile. -/
def Profile.variant (profile : Profile) : Project.Variant :=
  if profile.fuzzes then .fuzz else .main

/-- The sources of a build: those without a variant and those of the given one. -/
def Project.sourcesOf (p : Project) (v : Variant) : List Source :=
  p.sources.filter fun s => s.variant? = .ok none ∨ s.variant? = .ok (some v)

theorem Project.Source.variant?_eq_none_iff {s : Source} :
    s.variant? = .ok none ↔ s.variant.isNone = true := by
  unfold variant?
  split <;> simp_all

theorem Project.filter_sourcesOf (p : Project) (v : Variant) :
    (p.sourcesOf v).filter (·.variant.isNone) = p.sharedSources := by
  rw [sourcesOf, List.filter_filter, sharedSources]
  refine List.filter_congr fun s _ => ?_
  cases hs : s.variant.isNone with
  | false => rfl
  | true => simp [Source.variant?_eq_none_iff.mpr hs]

namespace Graph.Input

variable {i : Input} {m : Manifest} {library : Edge}

theorem compiledSources_eq (i : Input) :
    i.compiledSources = i.project.sourcesOf i.toolchain.profile.variant := by
  refine List.filter_congr fun s _ => ?_
  cases s.variant? with
  | error e => simp
  | ok v =>
    cases v with
    | none => simp [takes]
    | some v => cases v <;> cases hprofile : i.toolchain.profile <;>
        simp [takes, hprofile, Project.Variant.isIn, Profile.variant, Profile.fuzzes]

/-! ## The edges of a rule -/

/-- The edges by which a rule builds the compiler and the library. -/
def productsOf (i : Input) (library : Edge) : RuleName → List Edge
  | .compileSource => i.hostEdge :: i.compiledSources.map i.sourceEdge ++ [i.libraryObjectEdge]
  | .linkCompiler => [i.linkEdge]
  | .compileTool => [i.toolEdge]
  | .generateCode => i.codegenEdges
  | .joinLibrary => [library]
  | .packHeaders => [i.headerEdge]
  | _ => []

theorem filter_closingEdges_of_product {name : RuleName} (hname : name ∈ productRules) :
    i.closingEdges.filter (·.rule = name.text) = [] := by
  rw [filter_closingEdges]
  simp only [productRules, List.mem_cons, List.not_mem_nil, or_false] at hname
  rcases hname with rfl | rfl | rfl | rfl | rfl | rfl <;>
    simp [scenarioEdges, allTestsEdge, regenEdge, RuleName.text, Ninja.phony]

theorem filter_soundEdges (hlibrary : i.IsLibraryEdge library) {name : RuleName}
    (hname : name ∈ productRules) :
    (i.soundEdges library).filter (·.rule = name.text) = i.productsOf library name := by
  have hcode : ∀ e ∈ i.codegenEdges, e.rule = RuleName.generateCode.text := fun e he =>
    rule_of_mem_codegenEdges he
  have hsources : ∀ e ∈ i.compiledSources.map i.sourceEdge,
      e.rule = RuleName.compileSource.text := by
    intro e he
    obtain ⟨s, -, rfl⟩ := List.mem_map.mp he
    rfl
  rw [soundEdges, List.filter_append, filter_closingEdges_of_product hname, List.filter_append,
    List.filter_append, List.filter_append, filter_of_rule hcode, filter_of_rule hsources]
  simp only [productRules, List.mem_cons, List.not_mem_nil, or_false] at hname
  rcases hname with rfl | rfl | rfl | rfl | rfl | rfl <;>
    simp [productsOf, hostEdge, headerEdge, libraryObjectEdge, linkEdge, toolEdge, hlibrary.rule,
      RuleName.text]

theorem uses_product (hcheck : i.project.check = .ok ()) (hm : i.manifest = .ok m) :
    ∃ library, i.libraryEdge = .ok library ∧ i.IsLibraryEdge library ∧
      m = i.manifestOf (i.soundEdges library) ∧
      ∀ name ∈ productRules, uses m name.text = i.productsOf library name := by
  obtain ⟨library, hedge, hlibrary, -, -, rfl⟩ := exists_soundEdges hcheck hm
  exact ⟨library, hedge, hlibrary, rfl, fun name hname => filter_soundEdges hlibrary hname⟩

theorem inputs_of_libraryEdge (h : i.libraryEdge = .ok library) :
    ∃ before after, itemPaths i.project.library.prelude = .ok before ∧
      itemPaths i.project.library.epilogue = .ok after ∧
      library.inputs = before ++ i.project.sharedSources.map (inSources ·.path) ++ after := by
  unfold libraryEdge libraryInputs at h
  cases hbefore : itemPaths i.project.library.prelude with
  | error e =>
    rw [hbefore] at h
    cases h
  | ok before =>
    cases hafter : itemPaths i.project.library.epilogue with
    | error e =>
      rw [hbefore, hafter] at h
      cases h
    | ok after =>
      rw [hbefore, hafter] at h
      obtain rfl := Except.ok.inj h
      exact ⟨before, after, rfl, rfl, rfl⟩

/-! ## What a profile takes -/

/-- The edge that links the compiler with the given sources. -/
def linkTaking (i : Input) (taken : List Project.Source) : Edge :=
  { i.linkEdge with
    inputs := (i.hostObject :: taken.map fun s => i.toolchain.objectOf s.path).map .literal }

/-- The edge of the target of all tests, with the given fuzz cases. -/
def allTestsTaking (i : Input) (cases : List TestCase) : Edge :=
  { i.allTestsEdge with
    inputs := (i.fixtures.map (·.path) ++ cases.map (·.path) ++
      i.scenarios.map (·.script)).map .literal }

/-- The edge that writes the manifest anew, with the given fuzz cases. -/
def regenTaking (i : Input) (cases : List TestCase) : Edge :=
  { i.regenEdge with
    implicit := [inProject Project.projectFile, .literal i.tools.generator] ++
      (i.watchedDirectories ++ i.fixtures.map (·.path) ++ cases.map (·.path) ++
        i.scenarios.map (·.script)).map inProject }

/-- The edges of a graph that takes the given sources and fuzz cases. They are compiled or run by an
edge each, the sources are linked, and the cases are mentioned by the last two edges; all else does
not depend on what is taken. -/
def edgesTaking (i : Input) (library : Edge) (taken : List Project.Source)
    (cases : List TestCase) : List Edge :=
  i.codegenEdges ++ [i.hostEdge] ++ taken.map i.sourceEdge ++
    [i.headerEdge, library, i.libraryObjectEdge, i.linkTaking taken, i.toolEdge] ++
    (i.fixtures.map (i.testEdge true) ++ cases.map (i.testEdge false) ++
      i.scenarios.flatMap i.scenarioEdges ++ [i.allTestsTaking cases, i.regenTaking cases])

theorem soundEdges_eq_edgesTaking (i : Input) (library : Edge) :
    i.soundEdges library =
      i.edgesTaking library (i.project.sourcesOf i.toolchain.profile.variant) i.fuzzCases := by
  rw [← compiledSources_eq]
  rfl

end Graph.Input

namespace Generation

open BuildPlan.Graph (RuleName inSources)
open BuildPlan.Graph.Input (uses edgesTaking itemPaths)

section Profiles

variable {p : Project} {tools : ToolPaths} {inputs : Inputs} {tc tc' : Toolchain}

theorem libraryEdge_inputFor (tc tc' : Toolchain) :
    (inputFor p tools inputs tc').libraryEdge = (inputFor p tools inputs tc).libraryEdge :=
  rfl

theorem edgesTaking_inputFor (hplatform : tc'.platform = tc.platform) (library : Edge)
    (taken : List Project.Source) (cases : List TestCase) :
    edgesTaking (inputFor p tools inputs tc') library taken cases =
      edgesTaking (inputFor p tools inputs tc) library taken cases := by
  obtain ⟨platform, profile, commands⟩ := tc
  obtain ⟨platform', profile', commands'⟩ := tc'
  dsimp only at hplatform
  subst hplatform
  rfl

theorem length_components_tag (p : Project) (tc : Toolchain) :
    (Path.components (p.general.out ++ "/" ++ tc.tag)).length =
      (Path.components (p.general.out ++ "/")).length + 1 := by
  rw [Path.components_below, Toolchain.tag, (isName_tag tc.platform tc.profile).steps,
    List.length_append]
  rfl

/-- All build directories are equally far from the project. -/
theorem wayUp_inputFor (tc tc' : Toolchain) :
    (inputFor p tools inputs tc').wayUp = (inputFor p tools inputs tc).wayUp := by
  rw [Graph.Input.wayUp, Graph.Input.wayUp]
  unfold inputFor
  rw [length_components_tag, length_components_tag]

variable {m m' : Manifest}

/-- The code generated for the calling convention of the platform. -/
def hostCode (p : Project) (tc : Toolchain) : String :=
  p.codegen.output ++ "." ++ tc.platform.abi.tag ++ ".c"

/-- A manifest builds the compiler from the given sources, and the library from those without a
variant. -/
structure Builds (p : Project) (tc : Toolchain) (taken : List Project.Source) (m : Manifest) :
    Prop where
  /-- One edge links: the object of the generated code, then those of the sources. -/
  linked : (uses m RuleName.linkCompiler.text).map (·.inputs) =
    [(tc.objectOf (hostCode p tc) :: taken.map (tc.objectOf ·.path)).map .literal]
  /-- What is compiled, from what: the generated code, the sources and the library. -/
  compiled : (uses m RuleName.compileSource.text).map (fun e => (e.outputs, e.inputs)) =
    ([.literal (tc.objectOf (hostCode p tc))], [.literal (hostCode p tc)]) ::
      taken.map (fun s => ([.literal (tc.objectOf s.path)], [inSources s.path])) ++
      [([.literal (p.library.name ++ tc.platform.objectSuffix)],
        [.literal (p.library.dir ++ "/" ++ p.library.name ++ ".c")])]
  /-- One edge joins the preludes, the sources without a variant and the epilogues. -/
  joined : ∃ before after, itemPaths p.library.prelude = .ok before ∧
    itemPaths p.library.epilogue = .ok after ∧
    (uses m RuleName.joinLibrary.text).map (·.inputs) =
      [before ++ (p.sources.filter (·.variant.isNone)).map (inSources ·.path) ++ after]

theorem builds_of_manifest {i : Graph.Input} (hcheck : i.project.check = .ok ())
    (hm : i.manifest = .ok m) :
    Builds i.project i.toolchain (i.project.sourcesOf i.toolchain.profile.variant) m := by
  obtain ⟨library, hedge, -, -, huses⟩ := Graph.Input.uses_product hcheck hm
  obtain ⟨before, after, hbefore, hafter, hinputs⟩ := Graph.Input.inputs_of_libraryEdge hedge
  refine ⟨?_, ?_, before, after, hbefore, hafter, ?_⟩
  · rw [huses _ (by decide), Graph.Input.productsOf, List.map_singleton, Graph.Input.linkEdge,
      Graph.Input.objects, Graph.Input.compiledSources_eq]
    rfl
  · rw [huses _ (by decide), Graph.Input.productsOf, Graph.Input.compiledSources_eq,
      List.map_append, List.map_cons, List.map_map]
    rfl
  · rw [huses _ (by decide), Graph.Input.productsOf, List.map_singleton, hinputs]
    rfl

theorem manifests_inputFor (hcheck : p.check = .ok ()) (hplatform : tc'.platform = tc.platform)
    (hm : (inputFor p tools inputs tc).manifest = .ok m)
    (hm' : (inputFor p tools inputs tc').manifest = .ok m') :
    m'.vars = m.vars ∧ m'.defaults = m.defaults ∧ ∃ library,
      m.edges = edgesTaking (inputFor p tools inputs tc) library (p.sourcesOf tc.profile.variant)
        (inputFor p tools inputs tc).fuzzCases ∧
      m'.edges = edgesTaking (inputFor p tools inputs tc) library (p.sourcesOf tc'.profile.variant)
        (inputFor p tools inputs tc').fuzzCases := by
  obtain ⟨library, hedge, -, rfl, -⟩ := Graph.Input.uses_product hcheck hm
  obtain ⟨library', hedge', -, rfl, -⟩ := Graph.Input.uses_product hcheck hm'
  rw [libraryEdge_inputFor tc tc', hedge] at hedge'
  obtain rfl := Except.ok.inj hedge'
  refine ⟨?_, ?_, library, Graph.Input.soundEdges_eq_edgesTaking _ library, ?_⟩
  · show [_, _] = [_, _]
    rw [wayUp_inputFor tc tc']
    rfl
  · show [_] = [_]
    rw [Graph.Input.compiler, Graph.Input.compiler, Toolchain.program, Toolchain.program]
    rw [show (inputFor p tools inputs tc').toolchain.platform = _ from hplatform]
    rfl
  · rw [← edgesTaking_inputFor hplatform]
    exact Graph.Input.soundEdges_eq_edgesTaking _ library

/-- **The sources of a build are compiled, linked and joined as their variants say.** In project
order, the sources without a variant and those of the profile's are compiled, one edge each, and
linked behind the object of the generated code. Besides them only the library is compiled; it is
joined from the sources without a variant. The graphs of two profiles for one platform have the same
variables and defaults and, unless just one of them fuzzes, the same edges; in any case their edges
differ only by the sources with a variant and the fuzz cases that they take. -/
theorem sources_taken {p : Project} (hcheck : p.check = .ok ()) :
    (∀ (i : Graph.Input) (m : Manifest), i.project = p → i.manifest = .ok m →
      Builds p i.toolchain (p.sourcesOf i.toolchain.profile.variant) m) ∧
    ∀ (tools : ToolPaths) (inputs : Inputs) (tc tc' : Toolchain) (m m' : Manifest),
      tc'.platform = tc.platform → (inputFor p tools inputs tc).manifest = .ok m →
      (inputFor p tools inputs tc').manifest = .ok m' →
      m'.vars = m.vars ∧ m'.defaults = m.defaults ∧
      (tc'.profile.fuzzes = tc.profile.fuzzes → m'.edges = m.edges) ∧
      (∃ library,
        m.edges = edgesTaking (inputFor p tools inputs tc) library
          (p.sourcesOf tc.profile.variant) (if tc.profile.fuzzes then inputs.fuzzCases else []) ∧
        m'.edges = edgesTaking (inputFor p tools inputs tc) library
          (p.sourcesOf tc'.profile.variant)
          (if tc'.profile.fuzzes then inputs.fuzzCases else [])) ∧
      ∀ v, (p.sourcesOf v).filter (·.variant.isNone) = p.sources.filter (·.variant.isNone) := by
  refine ⟨?_, fun tools inputs tc tc' m m' hplatform hm hm' => ?_⟩
  · rintro i m rfl hm
    exact builds_of_manifest hcheck hm
  · obtain ⟨hvars, hdefaults, library, hedges, hedges'⟩ :=
      manifests_inputFor hcheck hplatform hm hm'
    refine ⟨hvars, hdefaults, fun hfuzzes => ?_, ⟨library, hedges, hedges'⟩, p.filter_sourcesOf⟩
    rw [hedges, hedges', Profile.variant, Profile.variant, hfuzzes]
    simp only [inputFor, hfuzzes]

end Profiles

namespace Sample

def mixed : Project :=
  { project with
    sources := [⟨"main.c", some "main"⟩, ⟨"parse.c", none⟩, ⟨"fuzz.c", some "fuzz"⟩] }

def found : Inputs :=
  { inputs ["test", "fuzz"] [] with fuzzCases := [Project.Tests.fuzzCase "fuzz/1"] }

def linux (profile : Profile) : Toolchain :=
  ⟨.linux, profile, (Commands.lookup .linux profile).getD ⟨"", "", "", ""⟩⟩

theorem sources_taken_mixed :
    ∃ m m', (inputFor mixed tools found (linux .debug)).manifest = .ok m ∧
      (inputFor mixed tools found (linux .fuzz)).manifest = .ok m' ∧ m'.vars = m.vars ∧
      (uses m RuleName.linkCompiler.text).map (·.inputs) =
        [["gen.l.o", "main.o", "parse.o"].map .literal] ∧
      (uses m' RuleName.linkCompiler.text).map (·.inputs) =
        [["gen.l.o", "parse.o", "fuzz.o"].map .literal] := by
  have hcheck : mixed.check = .ok () := by decide +kernel
  obtain ⟨m, hm, -⟩ := Graph.Input.exists_manifest_of_nodup
    (i := inputFor mixed tools found (linux .debug)) hcheck (by decide +kernel) (by decide +kernel)
    (by decide +kernel)
  obtain ⟨m', hm', -⟩ := Graph.Input.exists_manifest_of_nodup
    (i := inputFor mixed tools found (linux .fuzz)) hcheck (by decide +kernel) (by decide +kernel)
    (by decide +kernel)
  obtain ⟨hbuilds, hpairs⟩ := sources_taken hcheck
  have hplatform : (linux .fuzz).platform = (linux .debug).platform := rfl
  obtain ⟨hvars, -⟩ :=
    hpairs tools found (linux .debug) (linux .fuzz) m m' hplatform hm hm'
  refine ⟨m, m', hm, hm', hvars, ?_, ?_⟩
  · rw [(hbuilds (inputFor mixed tools found (linux .debug)) m rfl hm).linked]
    decide +kernel
  · rw [(hbuilds (inputFor mixed tools found (linux .fuzz)) m' rfl hm').linked]
    decide +kernel

end Sample

end Generation

end BuildPlan
