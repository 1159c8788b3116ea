import BuildPlan.Generation.Plan
import BuildPlan.Proofs.BuildGraph
import BuildPlan.Proofs.Bytes
import BuildPlan.Proofs.Inputs
import BuildPlan.Proofs.Writing
import Mathlib.Data.Nat.Basic

/-!
# Manifests that notice their changes

A manifest is written anew when an implicit input of its `regen` edge changes. `plan_alike` says how
far these inputs decide what is planned: a generation finds out about every change of the project
but for fixtures that were disabled and directories that were not there.
-/

namespace BuildPlan

open Ninja (Edge EscapedPath Manifest)
open BuildPlan.Graph (inProject)

namespace Inputs

variable {t t₁ t₂ : FileTree} {root : String}

theorem collect_eq_ok_iff {p : Project} {platform : Platform} {inputs : Inputs} :
    collect t root p platform = .ok inputs ↔
      ∃ includes, walkIncludes t root p.includes.dir = .ok includes ∧
        p.tests.enabledFixtures t root = .ok inputs.fixtures ∧
        fuzzCasesFor t root p platform = .ok inputs.fuzzCases ∧
        scenariosOf t root p = .ok inputs.scenarios ∧
        inputs.headers = includes.1 ∧ inputs.watchedDirectories = watched t root p includes.2 := by
  unfold collect
  simp only [bind_eq_ok_iff, mapError_eq_ok_iff]
  constructor
  · rintro ⟨includes, hincludes, fixtures, hfixtures, fuzz, hfuzz, cs, hcs, h⟩
    obtain rfl := Except.ok.inj h
    exact ⟨includes, hincludes, hfixtures, hfuzz, hcs, rfl, rfl⟩
  · rintro ⟨includes, hincludes, hfixtures, hfuzz, hcs, hheaders, hwatched⟩
    refine ⟨includes, hincludes, _, hfixtures, _, hfuzz, _, hcs, ?_⟩
    rw [← hheaders, ← hwatched]
    rfl

/-- The paths below the project that every manifest watches. -/
def watchedPaths (inputs : Inputs) : List String :=
  Project.projectFile :: (inputs.watchedDirectories ++ inputs.fixtures.map (·.path) ++
    inputs.scenarios.map (·.script))

/-- **Inputs depend on the watched paths**, but for disabled fixtures and directories that were not
there. -/
theorem collect_alike {p : Project} {platform : Platform} {inputs₁ inputs₂ : Inputs}
    (h₁ : collect t₁ root p platform = .ok inputs₁) (h₂ : collect t₂ root p platform = .ok inputs₂)
    (hcwd : t₁.cwd = t₂.cwd) (ht : t₁.WellNamed)
    (hwatched : ∀ path ∈ inputs₁.watchedPaths,
      t₁.sight (Path.join root path) = t₂.sight (Path.join root path))
    (hdisabled : ∀ path, p.tests.Disabled t₁ root path → p.tests.Disabled t₂ root path)
    (hnot : ∀ dir, dir = p.includes.dir ∨ p.tests.fuzz = some dir →
      t₁.isDirectory (Path.join root dir) = false → t₂.isDirectory (Path.join root dir) = false) :
    inputs₁ = inputs₂ := by
  obtain ⟨includes₁, hincludes₁, hfixtures₁, hfuzz₁, hscenarios₁, hheaders₁, hdirs₁⟩ :=
    collect_eq_ok_iff.mp h₁
  obtain ⟨includes₂, hincludes₂, hfixtures₂, hfuzz₂, hscenarios₂, hheaders₂, hdirs₂⟩ :=
    collect_eq_ok_iff.mp h₂
  have hdir : ∀ d ∈ inputs₁.watchedDirectories,
      t₁.sight (Path.join root d) = t₂.sight (Path.join root d) := fun d hd =>
    hwatched d (by simp [watchedPaths, hd])
  rw [hdirs₁] at hdir
  have htests := hdir _ mem_watched_tests
  have hfuzzDir : ∀ dir, p.tests.fuzz = some dir → t₁.isDirectory (Path.join root dir) = true →
      t₁.sight (Path.join root dir) = t₂.sight (Path.join root dir) := fun dir hfuzz hthere =>
    hdir dir (mem_watched_fuzz hfuzz hthere)
  have hincludes : includes₁ = includes₂ := by
    refine walkIncludes_alike hincludes₁ hincludes₂ hcwd ht (fun d hd => ?_) (hnot _ (.inl rfl))
    obtain ⟨d', hd', hsame⟩ := components_mem_addNew hd
    rw [FileTree.sight_congr (Path.components_join_congr hsame.symm),
      FileTree.sight_congr (t := t₂) (Path.components_join_congr hsame.symm)]
    exact hdir d' hd'
  subst hincludes
  have hfixtures : inputs₁.fixtures = inputs₂.fixtures := by
    refine Project.Tests.enabledFixtures_alike hfixtures₁ hfixtures₂ hcwd htests (fun d hd => ?_)
      hdisabled
    exact hwatched d.path (by simp [watchedPaths, List.mem_map_of_mem hd])
  have hfuzz : inputs₁.fuzzCases = inputs₂.fuzzCases := by
    unfold fuzzCasesFor at hfuzz₁ hfuzz₂
    split_ifs at hfuzz₁ hfuzz₂
    · have halike := Project.Tests.fuzzInputs_alike hcwd hfuzzDir
        (fun dir hset => hnot dir (.inr hset)) hfuzz₁
      exact Except.ok.inj (halike.symm.trans hfuzz₂)
    · exact Except.ok.inj (hfuzz₁.symm.trans hfuzz₂)
  have hscenarios : inputs₁.scenarios = inputs₂.scenarios := by
    have halike := scenariosOf_alike hcwd htests (fun c hc => ?_) hscenarios₁
    · exact Except.ok.inj (halike.symm.trans hscenarios₂)
    · exact hwatched c.script (by simp [watchedPaths, List.mem_map_of_mem hc])
  have hwatchedDirs : inputs₁.watchedDirectories = inputs₂.watchedDirectories := by
    have hsame : ∀ dir ∈ p.tests.fuzz.toList,
        t₁.isDirectory (Path.join root dir) = t₂.isDirectory (Path.join root dir) := by
      intro dir hset
      rw [Option.mem_toList] at hset
      cases hthere : t₁.isDirectory (Path.join root dir) with
      | true => exact (FileTree.isDirectory_alike hcwd (hfuzzDir dir hset hthere) hthere).symm
      | false => exact (hnot dir (.inr hset) hthere).symm
    rw [hdirs₁, hdirs₂, watched, watched, List.filter_congr hsame]
  obtain ⟨headers₁, dirs₁, fixtures₁, fuzz₁, scenarios₁⟩ := inputs₁
  obtain ⟨headers₂, dirs₂, fixtures₂, fuzz₂, scenarios₂⟩ := inputs₂
  rw [Inputs.mk.injEq]
  exact ⟨hheaders₁.trans hheaders₂.symm, hwatchedDirs, hfixtures, hfuzz, hscenarios⟩

end Inputs

namespace Generation

section

variable {read : Project.Reader} {t t₁ t₂ : FileTree} {root : String} {tools : ToolPaths}
  {platform : Platform}

/-! ## What a manifest watches -/

/-- The manifest is one of those that the generation for a tree plans. -/
def Plans (read : Project.Reader) (t : FileTree) (root : String) (tools : ToolPaths)
    (platform : Platform) (m : Manifest) : Prop :=
  ∃ p inputs profile toolchain, loadProject read t root = .ok p ∧
    Inputs.collect t root p platform = .ok inputs ∧ profile ∈ platform.profiles ∧
    Toolchain.forProfile platform profile = .ok toolchain ∧
    (inputFor p tools inputs toolchain).manifest = .ok m

/-- The path below the project is an implicit input of the edge that writes the manifest anew. -/
def Watches (m : Manifest) (path : String) : Prop :=
  ∃ e ∈ m.edges, e.rule = Graph.RuleName.regenerate.text ∧ inProject path ∈ e.implicit

/-- **What is watched**: the inputs of the manifest, and the fuzz cases where they run. -/
theorem watches_iff {p : Project} {inputs : Inputs} {toolchain : Toolchain} {m : Manifest}
    (h : (inputFor p tools inputs toolchain).manifest = .ok m) {path : String} :
    Watches m path ↔ path ∈ inputs.watchedPaths ∨
      path ∈ (inputFor p tools inputs toolchain).fuzzCases.map (·.path) := by
  obtain ⟨edges, hedges, -, -, -, rfl⟩ := Graph.Input.manifest_eq_ok_iff.mp h
  have hmem : ∀ e, e ∈ edges ↔ .ok e ∈ (inputFor p tools inputs toolchain).edges := by
    intro e
    rw [hedges]
    simp
  constructor
  · rintro ⟨e, he, hrule, hpath⟩
    obtain rfl := Graph.Input.eq_regenEdge ((hmem e).mp he) hrule
    simp only [Graph.Input.regenEdge, List.mem_append, List.mem_cons, List.mem_map,
      List.not_mem_nil, or_false] at hpath
    rcases hpath with (hfile | htool) | ⟨path', hpath, hsame⟩
    · exact .inl (List.mem_cons.mpr (.inl (Graph.inProject_injective hfile)))
    · exact absurd htool (Graph.inProject_ne_literal _ _)
    · obtain rfl := Graph.inProject_injective hsame
      simp only [Inputs.watchedPaths, List.mem_cons, List.mem_append, List.mem_map]
      rcases hpath with ((hdir | hfixture) | hfuzz) | hscenario
      · exact .inl (.inr (.inl (.inl hdir)))
      · exact .inl (.inr (.inl (.inr hfixture)))
      · exact .inr hfuzz
      · exact .inl (.inr (.inr hscenario))
  · intro hpath
    refine ⟨_, (hmem _).mpr (Graph.Input.regenEdge_mem_edges _), rfl, ?_⟩
    simp only [Inputs.watchedPaths, List.mem_cons, List.mem_append] at hpath
    rcases hpath with (rfl | (hpath | hpath) | hpath) | hpath
    · exact List.mem_cons_self
    all_goals
      refine List.mem_append_right _ (List.mem_map_of_mem ?_)
      simp only [inputFor, List.mem_append] at hpath ⊢
      simp [hpath]

/-! ## Stages of a plan -/

theorem loadProject_eq_ok {source : String} {p : Project}
    (hsource : t.readText (Path.join root Project.projectFile) = .ok source)
    (hparse : read source = some p) (hcheck : p.check = .ok ()) :
    loadProject read t root = .ok p := by
  unfold loadProject Project.load
  simp only [bind_eq_ok_iff, mapError_eq_ok_iff]
  exact ⟨p, by simp only [hsource, hparse], (), hcheck, rfl⟩

theorem loadProject_alike {p : Project} (hcwd : t₁.cwd = t₂.cwd)
    (hfile : t₁.sight (Path.join root Project.projectFile) =
      t₂.sight (Path.join root Project.projectFile))
    (h : loadProject read t₁ root = .ok p) : loadProject read t₂ root = .ok p := by
  unfold loadProject at h ⊢
  simp only [bind_eq_ok_iff, mapError_eq_ok_iff] at h ⊢
  obtain ⟨p', hload, hrest⟩ := h
  refine ⟨p', ?_, hrest⟩
  unfold Project.load at hload ⊢
  split at hload
  · cases hload
  · rename_i source hsource
    rw [FileTree.readText_alike hcwd hfile hsource]
    exact hload

theorem planDirectory_eq_ok_iff {i : Graph.Input} {part : List GeneratedFile} :
    planDirectory root i = .ok part ↔ ∃ m, i.manifest = .ok m ∧
      i.scenarios.map (fun s => ⟨Path.join (Path.join root i.buildDirectory) (i.driverFile s),
        s.driver⟩) ++ [⟨Path.join (Path.join root i.buildDirectory) Graph.manifestFile, m.render⟩] =
        part := by
  unfold planDirectory
  cases i.manifest with
  | error e => simp
  | ok m => simp

theorem planProfile_eq_ok_iff {p : Project} {inputs : Inputs} {profile : Profile}
    {part : List GeneratedFile} :
    planProfile root p tools platform inputs profile = .ok part ↔
      ∃ toolchain, Toolchain.forProfile platform profile = .ok toolchain ∧
        planDirectory root (inputFor p tools inputs toolchain) = .ok part := by
  unfold planProfile
  cases Toolchain.forProfile platform profile with
  | error e => simp
  | ok toolchain => simp

theorem plan_eq_ok_iff {files : List GeneratedFile} :
    plan read t root tools platform = .ok files ↔
      ∃ p inputs parts, loadProject read t root = .ok p ∧
        Inputs.checkRequired t root p tools = .ok () ∧
        Inputs.collect t root p platform = .ok inputs ∧
        List.Forall₂ (fun profile part =>
          planProfile root p tools platform inputs profile = .ok part) platform.profiles parts ∧
        parts.flatten = files := by
  unfold plan
  simp only [bind_eq_ok_iff, mapM_eq_ok_iff]
  constructor
  · rintro ⟨p, hp, _, hrequired, inputs, hinputs, parts, hparts, h⟩
    exact ⟨p, inputs, parts, hp, hrequired, hinputs, hparts, Except.ok.inj h⟩
  · rintro ⟨p, inputs, parts, hp, hrequired, hinputs, hparts, rfl⟩
    exact ⟨p, hp, (), hrequired, inputs, hinputs, parts, hparts, rfl⟩

theorem profiles_ne_nil (platform : Platform) : platform.profiles ≠ [] := by
  cases platform <;> decide

/-- **A manifest that is not written anew is up to date.** Where a tree looks like another one at all
that the manifests planned for that one watch, the same files are planned for both, provided that
disabled fixtures stay disabled and that no directory of headers or fuzz cases is new. -/
theorem plan_alike {files₁ files₂ : List GeneratedFile}
    (h₁ : plan read t₁ root tools platform = .ok files₁)
    (h₂ : plan read t₂ root tools platform = .ok files₂)
    (hcwd : t₁.cwd = t₂.cwd) (ht : t₁.WellNamed)
    (hwatched : ∀ m, Plans read t₁ root tools platform m → ∀ path, Watches m path →
      t₁.sight (Path.join root path) = t₂.sight (Path.join root path))
    (hdisabled : ∀ p, loadProject read t₁ root = .ok p → ∀ path, p.tests.Disabled t₁ root path →
      p.tests.Disabled t₂ root path)
    (hnot : ∀ p, loadProject read t₁ root = .ok p → ∀ dir,
      dir = p.includes.dir ∨ p.tests.fuzz = some dir →
      t₁.isDirectory (Path.join root dir) = false → t₂.isDirectory (Path.join root dir) = false) :
    files₁ = files₂ := by
  obtain ⟨p, inputs₁, parts₁, hp₁, -, hinputs₁, hparts₁, rfl⟩ := plan_eq_ok_iff.mp h₁
  obtain ⟨p₂, inputs₂, parts₂, hp₂, -, hinputs₂, hparts₂, rfl⟩ := plan_eq_ok_iff.mp h₂
  -- one manifest watches all there is to watch
  have hall : ∀ path ∈ inputs₁.watchedPaths,
      t₁.sight (Path.join root path) = t₂.sight (Path.join root path) := by
    obtain ⟨profile, rest, hprofiles⟩ := List.exists_cons_of_ne_nil (profiles_ne_nil platform)
    rw [hprofiles] at hparts₁
    obtain ⟨part, -, hpart, -, -⟩ := List.forall₂_cons_left_iff.mp hparts₁
    obtain ⟨toolchain, htoolchain, hpart⟩ := planProfile_eq_ok_iff.mp hpart
    obtain ⟨m, hm, -⟩ := planDirectory_eq_ok_iff.mp hpart
    exact fun path hpath => hwatched m ⟨p, inputs₁, profile, toolchain, hp₁, hinputs₁,
      hprofiles ▸ List.mem_cons_self, htoolchain, hm⟩ path ((watches_iff hm).mpr (.inl hpath))
  have hproject := loadProject_alike hcwd (hall _ List.mem_cons_self) hp₁
  rw [hproject] at hp₂
  obtain rfl := Except.ok.inj hp₂
  obtain rfl := Inputs.collect_alike hinputs₁ hinputs₂ hcwd ht hall (hdisabled p hp₁) (hnot p hp₁)
  have hparts : parts₁ = parts₂ := by
    rw [← mapM_eq_ok_iff] at hparts₁ hparts₂
    exact Except.ok.inj (hparts₁.symm.trans hparts₂)
  rw [hparts]

end

/-! ## Changes that go unnoticed -/

/-- Files are planned for both trees, but not the same ones, although the generator is the same and
the second tree looks like the first one wherever a manifest of the first one watches. -/
def Unnoticed (read : Project.Reader) (t₁ t₂ : FileTree) (root : String) (tools : ToolPaths)
    (platform : Platform) : Prop :=
  ∃ files₁ files₂, plan read t₁ root tools platform = .ok files₁ ∧
    plan read t₂ root tools platform = .ok files₂ ∧ t₁.cwd = t₂.cwd ∧ t₁.WellNamed ∧ t₂.WellNamed ∧
    (∀ m, Plans read t₁ root tools platform m → ∀ path, Watches m path →
      t₁.sight (Path.join root path) = t₂.sight (Path.join root path)) ∧
    t₁.sight (Path.join root tools.generator) = t₂.sight (Path.join root tools.generator) ∧
    files₁ ≠ files₂

namespace Sample

def source : String :=
  "project name=\"cc\" src=\"src\" out=\"out\"
codegen input=\"gen.in\" output=\"gen\" tool=\"tool.c\" script=\"gen.lua\"
includes dir=\"include\" output=\"headers.h\"
amalg dir=\"lib\" name=\"cc\" header=\"cc.h\" license=\"LICENSE\" switch=\"WIN\"
tests dir=\"test\" support=\"src/support.c\" fuzz=\"fuzz\"
source path=\"main.c\"
"

def project : Project where
  general := ⟨"cc", "src", "out"⟩
  codegen := ⟨"gen.in", "gen", "tool.c", "gen.lua"⟩
  includes := ⟨"include", "headers.h", none⟩
  library := ⟨"lib", "cc", "cc.h", "LICENSE", "WIN", [], []⟩
  tests := ⟨"test", "src/support.c", none, none, some "fuzz", none⟩
  sources := [⟨"main.c", none⟩]

def tools : ToolPaths := .inDirectory "bin"

/-- A project with one fixture, with the given item at the path for headers, and with more items. -/
def tree (manifest fixture : Bytes) (headers : Item) (more : List (Location × Item)) : FileTree where
  items :=
    [(["p"], .directory), (["p", "kiln.kdl"], .file manifest false), (["p", "test"], .directory),
      (["p", "test", "x.c"], .file fixture false), (["p", "include"], headers),
      (["p", "LICENSE"], .file [] false), (["p", "src"], .directory), (["p", "bin"], .directory)] ++
    ["gen.in", "tool.c", "gen.lua", "cc.h", "main.c", "support.c"].map
      (fun name => (["p", "src", name], .file [] false)) ++
    ["kiln-gen", "kiln-pack", "kiln-testrun"].map (fun name => (["p", "bin", name], .file [] true)) ++
    more

def treeOf (fixture : String) (headers : Item) (more : List (Location × Item)) : FileTree :=
  tree (Text.toUtf8 source) (Text.toUtf8 fixture) headers more

/-- The fixture is disabled, no directory of fuzz cases is there, and the headers are a file. -/
def original : FileTree := treeOf "// DISABLED" (.file [] false) []

/-- The disabled fixture has other contents. -/
def edited : FileTree := treeOf "// DISABLED, for now" (.file [] false) []

def enabled : FileTree := treeOf "" (.file [] false) []

def withFuzzCases : FileTree :=
  treeOf "// DISABLED" (.file [] false) [(["p", "fuzz"], .directory)]

def withHeaders : FileTree := treeOf "// DISABLED" .directory []

/-! ### Its project -/

theorem parse?_ofList (cs : List Char) : Project.parse? (String.ofList cs) =
    ((Kdl.tokensFrom (cs.length + 1) (Kdl.dropByteOrderMark cs)).bind fun ts =>
      match Kdl.readNodes (2 * ts.length + 2) ts with
      | some (nodes, []) => some nodes
      | _ => none).bind Project.ofNodes? := by
  unfold Project.parse? Kdl.parse? Kdl.tokens?
  rw [String.length_ofList, String.toList_ofList]
  cases Kdl.tokensFrom (cs.length + 1) (Kdl.dropByteOrderMark cs) with
  | none => rfl
  | some ts => rfl

set_option maxRecDepth 4000 in
theorem parse?_source : Project.parse? source = some project := by
  have hsource : source = String.ofList _ := rfl
  rw [hsource, parse?_ofList]
  decide +kernel

variable (fixture : String) (headers : Item) (more : List (Location × Item))

theorem sight_manifest (manifest fixture : Bytes) :
    (tree manifest fixture headers more).sight "p/kiln.kdl" = .file manifest := rfl

theorem readText_manifest (manifest : String) (fixture : Bytes) :
    (tree (Text.toUtf8 manifest) fixture headers more).readText "p/kiln.kdl" = .ok manifest := by
  have hlookup : ∀ data, (tree data fixture headers more).lookup "p/kiln.kdl" =
      .ok (["p", "kiln.kdl"], .file data false) := fun _ => rfl
  rw [FileTree.readText, FileTree.read, hlookup]
  simp only [Text.ofUtf8?_toUtf8]

theorem projectFile_path : Path.join "p" Project.projectFile = "p/kiln.kdl" := by decide +kernel

theorem loadProject_treeOf :
    loadProject Project.parse? (treeOf fixture headers more) "p" = .ok project := by
  have hcheck : project.check = .ok () := by decide +kernel
  have hsource : (treeOf fixture headers more).readText (Path.join "p" Project.projectFile) =
      .ok source := by
    rw [projectFile_path]
    exact readText_manifest headers more source (Text.toUtf8 fixture)
  exact loadProject_eq_ok hsource parse?_source hcheck

/-! ### Its manifests -/

def toolchain (profile : Profile) : Toolchain :=
  ⟨.windows, profile, (Commands.lookup .windows profile).getD ⟨"", "", "", ""⟩⟩

def inputs (dirs : List String) (fixtures : List TestCase) : Inputs := ⟨[], dirs, fixtures, [], []⟩

def graph (dirs : List String) (fixtures : List TestCase) (profile : Profile) : Graph.Input :=
  inputFor project tools (inputs dirs fixtures) (toolchain profile)

def opening : List Edge := (graph [] [] .debug).openingEdges.filterMap Except.toOption

def edges (dirs : List String) (fixtures : List TestCase) : List Edge :=
  opening ++ (graph dirs fixtures .debug).closingEdges

def rank (e : Edge) : Nat :=
  ["toolcc", "codegen", "amalg", "compincl", "cc", "link", "testrun", "phony"].idxOf e.rule

def Buildable (edges : List Edge) : Prop :=
  (∀ e ∈ edges, e.outputs ≠ []) ∧ (Manifest.outputs edges).Nodup ∧
  (∀ e ∈ edges, e.rule = Ninja.phony ∨ e.rule ∈ Graph.RuleName.all.map Graph.RuleName.text) ∧
  .literal "cc.exe" ∈ Manifest.outputs edges ∧
  ∀ writer ∈ edges, ∀ reader ∈ edges, ∀ p ∈ writer.outputs, p ∈ reader.reads →
    rank writer < rank reader

instance (edges : List Edge) : Decidable (Buildable edges) :=
  inferInstanceAs (Decidable (_ ∧ _ ∧ _ ∧ _ ∧ _))

variable {dirs : List String} {fixtures : List TestCase}

theorem edges_graph {profile : Profile} (hprofile : profile.fuzzes = false) :
    (graph dirs fixtures profile).edges = (edges dirs fixtures).map .ok := by
  have hdebug : (graph dirs fixtures .debug).edges = (edges dirs fixtures).map .ok := by
    have hopening : (graph [] [] .debug).openingEdges = opening.map .ok := by decide +kernel
    rw [Graph.Input.edges_eq, edges, List.map_append, ← hopening]
    rfl
  have halike := Graph.Input.edges_toolchain (graph dirs fixtures .debug)
    (toolchain profile) (graph dirs fixtures profile).buildDirectory rfl hprofile
  rw [← hdebug, ← halike]
  cases profile with
  | fuzz => cases hprofile
  | _ => rfl

theorem manifest_of_edges {i : Graph.Input} {es : List Edge} (h : Buildable es)
    (hedges : i.edges = es.map .ok) (hcompiler : i.compiler = "cc.exe") :
    i.manifest = .ok (i.manifestOf es) := by
  obtain ⟨houtputs, hnodup, hrules, hmade, hrank⟩ := h
  refine Graph.Input.manifest_eq_ok_of_rank rank hedges houtputs hnodup hrules ?_ hrank
  rw [hcompiler]
  exact hmade

theorem compiler_name : "cc" ++ ".exe" = "cc.exe" := by decide

theorem manifest_graph (h : Buildable (edges dirs fixtures)) {profile : Profile}
    (hprofile : profile.fuzzes = false) :
    (graph dirs fixtures profile).manifest =
      .ok ((graph dirs fixtures profile).manifestOf (edges dirs fixtures)) :=
  manifest_of_edges h (edges_graph hprofile) compiler_name

/-! ### Its plans -/

/-- The one file of a profile. -/
def planned (dirs : List String) (fixtures : List TestCase) (profile : Profile) : GeneratedFile :=
  ⟨Path.join (Path.join "p" (graph dirs fixtures profile).buildDirectory) Graph.manifestFile,
    ((graph dirs fixtures profile).manifestOf (edges dirs fixtures)).render⟩

def manifestFileOf (i : Graph.Input) (m : Manifest) : GeneratedFile :=
  ⟨Path.join (Path.join "p" i.buildDirectory) Graph.manifestFile, m.render⟩

theorem plan_of_manifests {t : FileTree} {q : Project} {found : Inputs}
    (hp : loadProject Project.parse? t "p" = .ok q)
    (hrequired : Inputs.checkRequired t "p" q tools = .ok ())
    (hinputs : Inputs.collect t "p" q .windows = .ok found) (hscenarios : found.scenarios = [])
    {m : Profile → Manifest}
    (hm : ∀ profile, profile.fuzzes = false →
      (inputFor q tools found (toolchain profile)).manifest = .ok (m profile)) :
    plan Project.parse? t "p" tools .windows =
      .ok ([Profile.debug, .release, .asan].map fun profile =>
        manifestFileOf (inputFor q tools found (toolchain profile)) (m profile)) := by
  have hpart : ∀ profile, profile.fuzzes = false →
      Toolchain.forProfile .windows profile = .ok (toolchain profile) →
      planProfile "p" q tools .windows found profile =
        .ok [manifestFileOf (inputFor q tools found (toolchain profile)) (m profile)] :=
    fun profile hfuzzes htoolchain => planProfile_eq_ok_iff.mpr ⟨toolchain profile, htoolchain,
      planDirectory_eq_ok_iff.mpr ⟨_, hm profile hfuzzes, by simp [inputFor, hscenarios,
        manifestFileOf]⟩⟩
  have hprofiles : Platform.windows.profiles = [.debug, .release, .asan] := by decide
  refine plan_eq_ok_iff.mpr ⟨q, found, [.debug, .release, .asan].map fun profile =>
    [manifestFileOf (inputFor q tools found (toolchain profile)) (m profile)], hp, hrequired,
    hinputs, ?_, ?_⟩
  · rw [hprofiles]
    exact .cons (hpart .debug rfl rfl) (.cons (hpart .release rfl rfl)
      (.cons (hpart .asan rfl rfl) .nil))
  · simp only [List.map_cons, List.map_nil, List.flatten_cons, List.flatten_nil,
      List.cons_append, List.nil_append]

theorem plan_eq {t : FileTree} (hp : loadProject Project.parse? t "p" = .ok project)
    (hrequired : Inputs.checkRequired t "p" project tools = .ok ())
    (hinputs : Inputs.collect t "p" project .windows = .ok (inputs dirs fixtures))
    (h : Buildable (edges dirs fixtures)) :
    plan Project.parse? t "p" tools .windows =
      .ok ([Profile.debug, .release, .asan].map (planned dirs fixtures)) :=
  plan_of_manifests hp hrequired hinputs rfl fun _ hfuzzes => manifest_graph h hfuzzes

/-- The text of the edges that depend on the inputs. -/
def closingText (dirs : List String) (fixtures : List TestCase) : String :=
  Text.unlines ((graph dirs fixtures .debug).closingEdges.flatMap Edge.lines)

theorem planned_ne {dirs' : List String} {fixtures' : List TestCase}
    (h : closingText dirs fixtures ≠ closingText dirs' fixtures') :
    planned dirs fixtures .debug ≠ planned dirs' fixtures' .debug := by
  intro hsame
  have hmanifest : ∀ dirs fixtures, (graph dirs fixtures .debug).manifestOf (edges dirs fixtures) =
      { (graph [] [] .debug).manifestOf [] with
        edges := opening ++ (graph dirs fixtures .debug).closingEdges } := fun _ _ => rfl
  have hrender := congrArg GeneratedFile.contents hsame
  rw [planned, planned, hmanifest dirs fixtures, hmanifest dirs' fixtures'] at hrender
  exact h (Manifest.lines_of_render hrender)

/-! ### What goes unnoticed -/

theorem original_wellNamed : original.WellNamed := by decide +kernel

theorem collect_original :
    Inputs.collect original "p" project .windows = .ok (inputs ["test"] []) := by
  decide +kernel

theorem buildable_original : Buildable (edges ["test"] []) := by decide +kernel

theorem plan_original : plan Project.parse? original "p" tools .windows =
    .ok ([Profile.debug, .release, .asan].map (planned ["test"] [])) :=
  plan_eq (loadProject_treeOf _ _ _) (by decide +kernel) collect_original buildable_original

theorem project_original {p : Project} (h : loadProject Project.parse? original "p" = .ok p) :
    p = project :=
  Except.ok.inj (h.symm.trans (loadProject_treeOf _ _ _))

theorem watches_original {m : Manifest} (hm : Plans Project.parse? original "p" tools .windows m)
    {path : String} (hpath : Watches m path) : path = Project.projectFile ∨ path = "test" := by
  obtain ⟨p, found, profile, toolchain, hp, hfound, -, -, hmanifest⟩ := hm
  obtain rfl := project_original hp
  rw [collect_original] at hfound
  obtain rfl := Except.ok.inj hfound
  rw [watches_iff hmanifest] at hpath
  simpa [Inputs.watchedPaths, inputs, inputFor] using hpath

variable (dirs fixtures) in
/-- What is planned for a tree that differs from the original one out of sight. -/
theorem unnoticed_of_text
    (hdir : original.sight "p/test" = (treeOf fixture headers more).sight "p/test")
    (hgenerator : original.sight (Path.join "p" tools.generator) =
      (treeOf fixture headers more).sight (Path.join "p" tools.generator))
    (hnamed : (treeOf fixture headers more).WellNamed)
    (hrequired : Inputs.checkRequired (treeOf fixture headers more) "p" project tools = .ok ())
    (hinputs : Inputs.collect (treeOf fixture headers more) "p" project .windows =
      .ok (inputs dirs fixtures))
    (h : Buildable (edges dirs fixtures))
    (htext : closingText ["test"] [] ≠ closingText dirs fixtures) :
    Unnoticed Project.parse? original (treeOf fixture headers more) "p" tools .windows := by
  refine ⟨_, _, plan_original, plan_eq (loadProject_treeOf _ _ _) hrequired hinputs h, rfl,
    original_wellNamed, hnamed, ?_, hgenerator, ?_⟩
  · intro m hm path hpath
    rcases watches_original hm hpath with rfl | rfl
    · rw [projectFile_path]
      exact (sight_manifest _ _ _ _).trans (sight_manifest _ _ _ _).symm
    · exact hdir
  · intro hsame
    exact planned_ne htext (List.cons.inj hsame).1

/-- **Changes that go unnoticed**: a fixture that is not disabled any more, a directory of fuzz cases
that appears, and a directory of headers in the place of a file. -/
theorem unnoticed_changes :
    Unnoticed Project.parse? original enabled "p" tools .windows ∧
      Unnoticed Project.parse? original withFuzzCases "p" tools .windows ∧
      Unnoticed Project.parse? original withHeaders "p" tools .windows := by
  refine ⟨?_, ?_, ?_⟩
  · refine unnoticed_of_text "" (.file [] false) [] ["test"]
      [⟨"test/x.c", "-Itest src/support.c test/x.c", .exit 0, "", true⟩] ?_ ?_ ?_ ?_ ?_ ?_ ?_
    all_goals decide +kernel
  · refine unnoticed_of_text "// DISABLED" (.file [] false) [(["p", "fuzz"], .directory)]
      ["test", "fuzz"] [] ?_ ?_ ?_ ?_ ?_ ?_ ?_
    all_goals decide +kernel
  · refine unnoticed_of_text "// DISABLED" .directory [] ["test", "include"] [] ?_ ?_ ?_ ?_ ?_ ?_
      ?_
    all_goals decide +kernel

theorem original_ne_edited : original ≠ edited := by
  intro hsame
  have hread := congrArg (fun t => t.at? ["p", "test", "x.c"]) hsame
  have hdata : Text.toUtf8 "// DISABLED" = Text.toUtf8 "// DISABLED, for now" :=
    (Item.file.inj (Option.some.inj hread)).1
  exact absurd (Text.toUtf8_injective hdata) (by decide)

theorem disabled_edited {path : String} (h : project.tests.Disabled original "p" path) :
    project.tests.Disabled edited "p" path := by
  obtain ⟨pattern, paths, d, hpattern, hpaths, hpath, hsupport, -, -⟩ := h
  have hpattern' : project.tests.fixtureNames = .ok ⟨[], some ['.', 'c']⟩ := by decide +kernel
  rw [hpattern'] at hpattern
  obtain rfl := Except.ok.inj hpattern
  have hpaths' : Project.Tests.filesIn original "p" "test"
      (NamePattern.fits ⟨[], some ['.', 'c']⟩) = .ok ["test/x.c"] := by decide +kernel
  obtain rfl := Except.ok.inj (hpaths'.symm.trans hpaths)
  obtain rfl := List.mem_singleton.mp hpath
  refine ⟨_, ["test/x.c"], ⟨"test/x.c", "-Itest src/support.c test/x.c", .exit 0, "", false⟩,
    hpattern', ?_, hpath, hsupport, ?_, rfl⟩
  all_goals decide +kernel

/-- A disabled fixture is edited: what is planned stays as it is. -/
theorem plan_alike_edited :
    original ≠ edited ∧ ∃ files₁ files₂,
      plan Project.parse? original "p" tools .windows = .ok files₁ ∧
      plan Project.parse? edited "p" tools .windows = .ok files₂ ∧ files₁ = files₂ := by
  have hedited : plan Project.parse? edited "p" tools .windows =
      .ok ([Profile.debug, .release, .asan].map (planned ["test"] [])) :=
    plan_eq (loadProject_treeOf _ _ _) (by decide +kernel) (by decide +kernel) buildable_original
  refine ⟨original_ne_edited, _, _, plan_original, hedited, ?_⟩
  refine plan_alike plan_original hedited rfl original_wellNamed ?_ ?_ ?_
  · intro m hm path hpath
    rcases watches_original hm hpath with rfl | rfl
    · rw [projectFile_path]
      exact (sight_manifest _ _ _ _).trans (sight_manifest _ _ _ _).symm
    · decide +kernel
  · intro p hp path hpath
    obtain rfl := project_original hp
    exact disabled_edited hpath
  · intro p hp dir hdir
    obtain rfl := project_original hp
    rcases hdir with rfl | hfuzz
    · decide +kernel
    · obtain rfl := Option.some.inj hfuzz
      decide +kernel

end Sample

end Generation

end BuildPlan
