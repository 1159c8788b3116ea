import BuildPlan.Proofs.Presence
import BuildPlan.Proofs.Repetition

/-!
# What a manifest names is there

An edge names what lies in the build directory and the tools as they are, and everything else below
the project or below its source directory (`names_of_read`). These paths reach a manifest from two
sides: those that the project file gives are checked one by one before anything is planned, and the
others have been found in the tree. Either way something stands there (`listed_present`).
-/

namespace BuildPlan

open BuildPlan.Path (IsName)
open Ninja (Edge EscapedPath Manifest)
open BuildPlan.Graph (inProject inSources)

/-! ## What a graph names -/

namespace Graph

theorem inSources_injective {a b : String} (h : inSources a = inSources b) : a = b := by
  have htext := congrArg EscapedPath.text h
  exact Ninja.escape_injective (by simpa [inSources, EscapedPath.below] using htext)

theorem inProject_ne_inSources (a b : String) : inProject a ≠ inSources b := by
  intro h
  have htext := congrArg (fun p => p.text.toList) h
  simp [inProject, inSources, EscapedPath.below, projectVariable, sourceVariable] at htext

namespace Input

variable {i : Input} {library e : Edge} {q : EscapedPath}

/-- The paths that edges name below the project. -/
inductive NamesInProject (i : Input) : String → Prop where
  | projectFile : NamesInProject i Project.projectFile
  | license : NamesInProject i i.project.library.license
  | support : NamesInProject i i.project.tests.support
  | item {item : Project.Item} (h : item ∈ i.project.library.items)
    (hbase : item.base? = .ok .top) : NamesInProject i item.path
  | header {path : String} (h : path ∈ i.headers) : NamesInProject i path
  | watched {dir : String} (h : dir ∈ i.watchedDirectories) : NamesInProject i dir
  | fixture {t : TestCase} (h : t ∈ i.fixtures) : NamesInProject i t.path
  | fuzz {t : TestCase} (h : t ∈ i.fuzzCases) : NamesInProject i t.path
  | script {s : Scenario.Compiled} (h : s ∈ i.scenarios) : NamesInProject i s.script

/-- The paths that edges name below the source directory. -/
inductive NamesInSources (i : Input) : String → Prop where
  | input : NamesInSources i i.project.codegen.input
  | tool : NamesInSources i i.project.codegen.tool
  | script : NamesInSources i i.project.codegen.script
  | header : NamesInSources i i.project.library.header
  | source {s : Project.Source} (h : s ∈ i.project.sources) : NamesInSources i s.path
  | item {item : Project.Item} (h : item ∈ i.project.library.items)
    (hbase : item.base? = .ok .src) : NamesInSources i item.path

/-- What an edge may name: a path in the build directory or one of a tool as it is, and the given
paths below the project and its source directory. -/
inductive Names (i : Input) : EscapedPath → Prop where
  | literal (path : String) : Names i (.literal path)
  | project {path : String} (h : i.NamesInProject path) : Names i (inProject path)
  | sources {path : String} (h : i.NamesInSources path) : Names i (inSources path)

theorem Names.inProject {path : String} (h : i.Names (inProject path)) : i.NamesInProject path := by
  generalize hq : Graph.inProject path = q at h
  cases h with
  | literal other => exact absurd hq (inProject_ne_literal _ _)
  | project h => exact inProject_injective hq ▸ h
  | sources h => exact absurd hq (inProject_ne_inSources _ _)

theorem Names.inSources {path : String} (h : i.Names (inSources path)) : i.NamesInSources path := by
  generalize hq : Graph.inSources path = q at h
  cases h with
  | literal other => exact absurd hq (inSources_ne_literal _ _)
  | project h => exact absurd hq.symm (inProject_ne_inSources _ _)
  | sources h => exact inSources_injective hq ▸ h

/-! ### What edges read -/

theorem names_itemPath {item : Project.Item} {base : Project.Base}
    (h : item ∈ i.project.library.items) (hbase : item.base? = .ok base) :
    i.Names (itemPath item.path base) := by
  cases base with
  | src => exact .sources (.item h hbase)
  | top => exact .project (.item h hbase)
  | out => exact .literal item.path

theorem names_of_mem_itemPaths {items : List Project.Item} {found : List EscapedPath}
    (hitems : ∀ item ∈ items, item ∈ i.project.library.items) (h : itemPaths items = .ok found)
    (hq : q ∈ found) : i.Names q := by
  obtain ⟨item, hitem, hpath⟩ := exists_mem_of_forall₂_right (mapM_eq_ok_iff.mp h) hq
  cases hbase : item.base? with
  | error e =>
    rw [hbase] at hpath
    cases hpath
  | ok base =>
    rw [hbase] at hpath
    obtain rfl := Except.ok.inj hpath
    exact names_itemPath (hitems item hitem) hbase

theorem names_of_mem_libraryInputs {found : List EscapedPath} (h : i.libraryInputs = .ok found)
    (hq : q ∈ found) : i.Names q := by
  unfold libraryInputs at h
  split at h
  · cases h
  · cases h
  · rename_i before after hbefore hafter
    obtain rfl := Except.ok.inj h
    simp only [List.mem_append, List.mem_map] at hq
    rcases hq with (hq | ⟨s, hs, rfl⟩) | hq
    · exact names_of_mem_itemPaths (fun item hitem => List.mem_append_left _ hitem) hbefore hq
    · exact .sources (.source (List.mem_filter.mp hs).1)
    · exact names_of_mem_itemPaths (fun item hitem => List.mem_append_right _ hitem) hafter hq

theorem names_of_library (h : i.libraryEdge = .ok library) (hq : q ∈ library.reads) :
    i.Names q := by
  rw [libraryEdge] at h
  split at h
  · cases h
  · rename_i inputs hinputs
    obtain rfl := Except.ok.inj h
    simp only [Edge.reads, List.append_nil, List.mem_append, List.mem_map, List.mem_cons,
      List.not_mem_nil, or_false] at hq
    rcases hq with hq | ⟨abi, -, rfl⟩ | rfl | rfl | rfl | rfl
    · exact names_of_mem_libraryInputs hinputs hq
    · exact .literal _
    · exact .sources .header
    · exact .project .license
    · exact .literal _
    · exact .project .projectFile

theorem names_of_test {t : TestCase} (ht : i.NamesInProject t.path) (isFixture : Bool)
    (hq : q ∈ (i.testEdge isFixture t).reads) : i.Names q := by
  simp only [testEdge, Edge.reads, List.append_nil, List.mem_append, List.mem_cons,
    List.not_mem_nil, or_false] at hq
  rcases hq with rfl | rfl | hq
  · exact .project ht
  · exact .literal _
  · split_ifs at hq
    · obtain rfl := List.mem_singleton.mp hq
      exact .project .support
    · cases hq

theorem names_of_regen (hq : q ∈ i.regenEdge.reads) : i.Names q := by
  simp only [Edge.reads, regenEdge, List.nil_append, List.append_nil, List.mem_append,
    List.mem_cons, List.not_mem_nil, or_false, List.mem_map] at hq
  rcases hq with (rfl | rfl) | ⟨path, ((hdir | ⟨t, ht, rfl⟩) | ⟨t, ht, rfl⟩) | ⟨s, hs, rfl⟩, rfl⟩
  · exact .project .projectFile
  · exact .literal _
  · exact .project (.watched hdir)
  · exact .project (.fixture ht)
  · exact .project (.fuzz ht)
  · exact .project (.script hs)

/-- **What an edge reads**, edge by edge. -/
theorem names_of_read (hedge : i.libraryEdge = .ok library) (he : IsEdge i library e)
    (hq : q ∈ e.reads) : i.Names q := by
  cases he with
  | code h =>
    obtain ⟨abi, -, rfl⟩ := List.mem_map.mp h
    simp only [Edge.reads, List.append_nil, List.mem_append, List.mem_cons, List.not_mem_nil,
      or_false] at hq
    rcases hq with rfl | rfl | rfl
    · exact .sources .input
    · exact .literal _
    · exact .sources .script
  | host =>
    obtain rfl : q = .literal i.linkedCode := by simpa [Edge.reads, hostEdge] using hq
    exact .literal _
  | @source s h =>
    simp only [Edge.reads, sourceEdge, List.append_nil, List.mem_append, List.mem_singleton] at hq
    rcases hq with rfl | hq
    · exact .sources (.source (List.mem_filter.mp h).1)
    · split_ifs at hq
      · obtain rfl := List.mem_singleton.mp hq
        exact .literal _
      · cases hq
  | headers =>
    simp only [Edge.reads, headerEdge, List.append_nil, List.mem_append, List.mem_map,
      List.mem_singleton] at hq
    rcases hq with ⟨header, hheader, rfl⟩ | rfl
    · exact .project (.header hheader)
    · exact .literal _
  | library => exact names_of_library hedge hq
  | libraryObject =>
    obtain rfl : q = .literal i.librarySource := by simpa [Edge.reads, libraryObjectEdge] using hq
    exact .literal _
  | link =>
    obtain ⟨object, -, rfl⟩ : ∃ object ∈ i.objects, .literal object = q := by
      simpa [Edge.reads, linkEdge] using hq
    exact .literal _
  | tool =>
    obtain rfl : q = inSources i.project.codegen.tool := by simpa [Edge.reads, toolEdge] using hq
    exact .sources .tool
  | fixture h => exact names_of_test (.fixture h) true hq
  | fuzz h => exact names_of_test (.fuzz h) false hq
  | scenario hs h =>
    rcases mem_scenarioEdges h with ⟨-, -, hreads⟩ | ⟨-, -, hreads⟩
    · simp only [hreads, List.mem_cons, List.not_mem_nil, or_false] at hq
      rcases hq with rfl | rfl | rfl <;> exact .literal _
    · rw [hreads, List.mem_singleton] at hq
      exact hq ▸ .literal _
  | allTests =>
    simp only [allTestsEdge, Edge.reads, allOutputs, List.append_nil, List.mem_map] at hq
    obtain ⟨path, -, rfl⟩ := hq
    exact .literal path
  | regen => exact names_of_regen hq

theorem names_of_write (hlibrary : i.IsLibraryEdge library) (he : IsEdge i library e)
    (hq : q ∈ e.outputs) : i.Names q := by
  have hdeclared : q ∈ i.declaredOutputs := by
    rw [← outputs_soundEdges hlibrary]
    exact Manifest.mem_outputs.mpr ⟨e, mem_soundEdges.mpr he, hq⟩
  -- whatever is written has a literal path
  obtain ⟨path, rfl⟩ := exists_literal_of_mem_declaredOutputs hdeclared
  exact .literal path

end Input

end Graph

/-! ## What a plan names -/

namespace Project

/-- The paths of a project that lead to what a build reads. -/
def readPaths (p : Project) : List String :=
  p.general.src :: (p.sources.map (·.path) ++
      [p.codegen.input, p.codegen.tool, p.codegen.script, p.library.header]) ++
    [p.library.license, p.includes.dir, p.tests.dir, p.tests.support] ++
    p.library.items.map (·.path) ++ p.tests.fuzz.toList

/-- No path of a project that leads to what a build reads starts at the root of the tree. -/
def IsRelative (p : Project) : Prop :=
  ∀ path ∈ p.readPaths, Path.isAbsolute path = false

instance (p : Project) : Decidable p.IsRelative :=
  inferInstanceAs (Decidable (∀ path ∈ p.readPaths, _ = _))

end Project

namespace Generation

section

variable {read : Project.Reader} {t : FileTree} {root : String} {tools : ToolPaths}
  {platform : Platform} {p : Project}
  {inputs : Inputs} {toolchain : Toolchain} {path : String} {m : Manifest} {e : Edge}

theorem holds_projectFile (h : loadProject read t root = .ok p) :
    t.Holds (Path.join root Project.projectFile) := by
  unfold loadProject Project.load at h
  simp only [bind_eq_ok_iff, mapError_eq_ok_iff] at h
  obtain ⟨p', hload, -⟩ := h
  split at hload
  · cases hload
  · rename_i source hsource
    rw [FileTree.readText, FileTree.read] at hsource
    cases hlookup : t.lookup (Path.join root Project.projectFile) with
    | error e =>
      rw [hlookup] at hsource
      cases hsource
    | ok found =>
      obtain ⟨-, hloc, hat, hask⟩ := FileTree.lookup_eq_ok_iff.mp hlookup
      exact ⟨found.1, found.2, hloc, hat, hask⟩

/-- The root of a project that is loaded is a directory, since the project file is in it. -/
theorem directory_of_loadProject (h : loadProject read t root = .ok p) (loc : Location)
    (hloc : t.reached root = .ok loc) : t.at? loc = some .directory := by
  have hname : IsName Project.projectFile := by decide
  obtain ⟨file, -, hfile, -⟩ := holds_projectFile h
  rw [FileTree.reached_eq_follow, Path.components_join_name hname] at hfile
  obtain ⟨mid, hmid, halong⟩ := FileTree.exists_of_follow_concat hfile
  rw [← FileTree.reached_eq_follow, hloc] at hmid
  obtain rfl := Except.ok.inj hmid
  exact FileTree.directory_of_stepTo halong

section

variable (ht : t.WellNamed) (hp : loadProject read t root = .ok p) (hrelative : p.IsRelative)
  (hrequired : Inputs.checkRequired t root p tools = .ok ())
  (hinputs : Inputs.collect t root p platform = .ok inputs)

include ht hp hrelative hrequired hinputs in
theorem holds_of_namesInProject
    (h : (inputFor p tools inputs toolchain).NamesInProject path) :
    t.Holds (Path.behind root path) := by
  obtain ⟨paths, hpaths, hall⟩ := Inputs.holds_of_checkRequired hrequired
  obtain ⟨-, hnamed, hitems⟩ := Inputs.mem_required hpaths
  obtain ⟨includes, hincludes, hfixtures, hfuzz, hscenarios, hheaders, hwatched⟩ :=
    Inputs.collect_eq_ok_iff.mp hinputs
  have hrel : ∀ path ∈ [p.library.license, p.includes.dir, p.tests.dir, p.tests.support],
      Path.isAbsolute path = false := fun path hpath => hrelative path (by
    simp only [Project.readPaths, List.mem_append]
    exact .inl (.inl (.inr hpath)))
  have hfuzzDirs : ∀ dir ∈ p.tests.fuzz.toList, Path.isAbsolute dir = false :=
    fun dir hdir => hrelative dir (List.mem_append_right _ hdir)
  have htests : Path.isAbsolute p.tests.dir = false := hrel _ (by simp)
  have hfound : ∀ path, path ∈ includes.1 ∨ path ∈ includes.2 → t.Holds (Path.behind root path) :=
    fun path hpath => Inputs.holds_include ht (directory_of_loadProject hp) (hrel _ (by simp))
      hincludes hpath
  have hthere : ∀ path ∈ [p.library.license, p.includes.dir, p.tests.dir, p.tests.support],
      t.Holds (Path.behind root path) := fun path hpath =>
    (hall path (hnamed path hpath)).behind (hrel path hpath)
  cases h with
  | projectFile => exact (holds_projectFile hp).behind (by decide)
  | license => exact hthere _ List.mem_cons_self
  | support => exact hthere p.tests.support (by simp)
  | @item item h hbase =>
    refine (hall _ (hitems item h _ (by rw [Inputs.itemInput, hbase]))).behind ?_
    exact hrelative _ (List.mem_append_left _ (List.mem_append_right _ (List.mem_map_of_mem h)))
  | header h => exact hfound path (.inl (hheaders ▸ h))
  | watched h =>
    have hmem : path ∈ Inputs.watched t root p includes.2 := hwatched ▸ h
    exact Inputs.holds_watched (hthere p.tests.dir (by simp)) hfuzzDirs
      (fun dir hdir => hfound dir (.inr hdir)) hmem
  | fixture h => exact Inputs.holds_fixture ht htests hfixtures h
  | @fuzz c h =>
    have hcase : c ∈ inputs.fuzzCases := by
      simp only [inputFor] at h
      split_ifs at h
      · exact h
      · cases h
    exact Inputs.holds_fuzzCase ht hfuzzDirs hfuzz hcase
  | script h => exact Inputs.holds_script ht htests hscenarios h

include hrelative hrequired in
theorem holds_of_namesInSources
    (h : (inputFor p tools inputs toolchain).NamesInSources path) :
    t.Holds (Path.behind (Path.behind root p.general.src) path) := by
  obtain ⟨paths, hpaths, hall⟩ := Inputs.holds_of_checkRequired hrequired
  obtain ⟨hnamed, -, hitems⟩ := Inputs.mem_required hpaths
  have hsrc : Path.isAbsolute p.general.src = false := hrelative _ (by simp [Project.readPaths])
  have hthere : ∀ path ∈ p.sources.map (·.path) ++
      [p.codegen.input, p.codegen.tool, p.codegen.script, p.library.header],
      t.Holds (Path.behind (Path.behind root p.general.src) path) := by
    intro path hpath
    refine (hall _ (hnamed path hpath)).behind_behind hsrc (hrelative path ?_)
    simp only [Project.readPaths, List.mem_append]
    exact .inl (.inl (.inl (List.mem_cons_of_mem _ hpath)))
  cases h with
  | input => exact hthere p.codegen.input (by simp)
  | tool => exact hthere p.codegen.tool (by simp)
  | script => exact hthere p.codegen.script (by simp)
  | header => exact hthere p.library.header (by simp)
  | source h => exact hthere _ (List.mem_append_left _ (List.mem_map_of_mem h))
  | @item item h hbase =>
    refine (hall _ (hitems item h _ (by rw [Inputs.itemInput, hbase]))).behind_behind hsrc ?_
    exact hrelative _ (List.mem_append_left _ (List.mem_append_right _ (List.mem_map_of_mem h)))

end

/-- **What a manifest names is there.** Where the files of a project with relative paths are
generated, every path that an edge names below the project or below its source directory was there
when the generation started. -/
theorem listed_present {report : GenerationReport} (ht : t.WellNamed)
    (hp : loadProject read t root = .ok p) (hrelative : p.IsRelative)
    (hrun : (run read t root tools platform).2 = .ok report) (hm : Plans read t root tools platform m)
    (he : e ∈ m.edges) :
    (∀ path, inProject path ∈ e.outputs ++ e.reads → t.Holds (Path.behind root path)) ∧
    (∀ path, inSources path ∈ e.outputs ++ e.reads →
      t.Holds (Path.behind (Path.behind root p.general.src) path)) := by
  obtain ⟨files, hplan⟩ : ∃ files, plan read t root tools platform = .ok files := by
    unfold run at hrun
    split at hrun
    · cases hrun
    · rename_i files hplan
      exact ⟨files, hplan⟩
  obtain ⟨p', inputs, parts, hp', hrequired, hinputs, -, -⟩ := plan_eq_ok_iff.mp hplan
  obtain rfl := Except.ok.inj (hp.symm.trans hp')
  obtain ⟨p'', inputs', profile, toolchain, hp'', hinputs', -, -, hmanifest⟩ := hm
  obtain rfl := Except.ok.inj (hp.symm.trans hp'')
  obtain rfl := Except.ok.inj (hinputs.symm.trans hinputs')
  obtain ⟨library, hedge, hlibrary, -, -, rfl⟩ :=
    Graph.Input.exists_soundEdges (check_of_loadProject hp) hmanifest
  have hedgeOf := Graph.Input.mem_soundEdges.mp he
  have hnames : ∀ q ∈ e.outputs ++ e.reads, (inputFor p tools inputs toolchain).Names q := by
    intro q hq
    rcases List.mem_append.mp hq with hq | hq
    · exact Graph.Input.names_of_write hlibrary hedgeOf hq
    · exact Graph.Input.names_of_read hedge hedgeOf hq
  refine ⟨fun path hpath => ?_, fun path hpath => ?_⟩
  · exact holds_of_namesInProject ht hp hrelative hrequired hinputs (hnames _ hpath).inProject
  · exact holds_of_namesInSources hrelative hrequired (hnames _ hpath).inSources

end

namespace Sample

/-- The test of the sample whose fixture is not disabled. -/
def sumTest : TestCase := ⟨"test/x.c", "-Itest src/support.c test/x.c", .exit 0, "", true⟩

theorem listed_present_enabled :
    ∃ m e, Plans Project.parse? enabled "p" tools .windows m ∧ e ∈ m.edges ∧
      inProject "test/x.c" ∈ e.outputs ++ e.reads ∧
      enabled.Holds (Path.behind "p" "test/x.c") := by
  have hp : loadProject Project.parse? enabled "p" = .ok project := loadProject_treeOf _ _ _
  have hinputs : Inputs.collect enabled "p" project .windows = .ok (inputs ["test"] [sumTest]) := by
    decide +kernel
  have hbuildable : Buildable (edges ["test"] [sumTest]) := by decide +kernel
  have hplan := plan_eq hp (by decide +kernel) hinputs hbuildable
  have hreport : (run Project.parse? enabled "p" tools .windows).2 = .ok ⟨["p/out/wd/build.ninja",
      "p/out/wr/build.ninja", "p/out/wa/build.ninja"], []⟩ := by
    refine (congrArg Prod.snd (run_of_plan hplan)).trans ?_
    decide +kernel
  have hm : Plans Project.parse? enabled "p" tools .windows _ :=
    ⟨project, inputs ["test"] [sumTest], .debug, toolchain .debug, hp, hinputs, by decide, rfl,
      manifest_graph hbuildable rfl⟩
  have he : (graph ["test"] [sumTest] .debug).testEdge true sumTest ∈ edges ["test"] [sumTest] :=
    List.mem_append_right _ (by simp [Graph.Input.closingEdges, graph, inputFor, inputs])
  have hread : inProject "test/x.c" ∈ ((graph ["test"] [sumTest] .debug).testEdge true
      sumTest).outputs ++ ((graph ["test"] [sumTest] .debug).testEdge true sumTest).reads := by
    simp [Graph.Input.testEdge, Edge.reads, sumTest]
  have hnamed : enabled.WellNamed := by decide +kernel
  have hrelative : project.IsRelative := by decide +kernel
  exact ⟨_, _, hm, he, hread, (listed_present hnamed hp hrelative hreport hm he).1 _ hread⟩

end Sample

end Generation

end BuildPlan
