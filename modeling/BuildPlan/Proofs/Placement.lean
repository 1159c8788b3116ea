import BuildPlan.Proofs.Closure
import BuildPlan.Proofs.Growth
import BuildPlan.Proofs.Regeneration

/-!
# Where planned files stand

The files of a plan are those of its build directories, one after the other (`plan_eq_files`). Each
stands in the build directory of a profile under a name of its own, so no two of them stand at the
same place (`nodup_places`).
-/

namespace BuildPlan

open BuildPlan.Path (components IsName)
open Ninja (Manifest)

namespace Path

theorem lastPart_below (dir : String) {name : String} (h : '/' ∉ name.toList) :
    lastPart (dir ++ "/" ++ name) = name.toList := by
  have hdir : lastPart (dir ++ "/") = [] := by
    rw [lastPart, String.toList_append, show "/".toList = '/' :: [] from rfl, Text.split_append_sep]
    exact List.getLastD_concat
  rw [lastPart_append _ h, hdir, List.nil_append]

theorem fileName?_below (dir : String) {name : String} (h : IsName name) :
    fileName? (dir ++ "/" ++ name) = some name := by
  have hlast := lastPart_below dir h.2.2
  rw [fileName?_eq_lastPart, hlast, String.ofList_toList]
  rwa [hlast, String.ofList_toList]

end Path

/-! ## Names of test files -/

theorem FileTree.isName_of_mem_fileNames {t : FileTree} (ht : t.WellNamed) {path : String}
    {names : List String} (h : t.fileNames path = .ok names) {name : String} (hname : name ∈ names) :
    IsName name := by
  rw [fileNames] at h
  split at h
  · cases h
  · obtain rfl := Except.ok.inj h
    cases hname
  · obtain rfl := Except.ok.inj h
    exact (ht.child (List.mem_filter.mp hname).1).1

theorem Project.Tests.exists_of_mem_filesIn {t : FileTree} (ht : t.WellNamed) {root dir : String}
    {fits : String → Bool} {paths : List String} (h : filesIn t root dir fits = .ok paths)
    {path : String} (hpath : path ∈ paths) : ∃ name, IsName name ∧ path = dir ++ "/" ++ name := by
  unfold filesIn at h
  dsimp only at h
  split at h
  · cases h
  · rename_i names hnames
    obtain rfl := Except.ok.inj h
    obtain ⟨name, hname, rfl⟩ := List.mem_map.mp hpath
    exact ⟨name, FileTree.isName_of_mem_fileNames ht hnames (List.mem_filter.mp hname).1, rfl⟩

theorem Inputs.script_below {t : FileTree} (ht : t.WellNamed) {root : String} {p : Project}
    {cs : List Scenario.Compiled} (h : scenariosOf t root p = .ok cs) {c : Scenario.Compiled}
    (hc : c ∈ cs) : IsName c.scriptName ∧ c.script = p.tests.dir ++ "/" ++ c.scriptName := by
  obtain ⟨_, _, hscripts, hscript⟩ := exists_of_mem_scenariosOf h hc
  obtain ⟨name, hname, hpath⟩ := Project.Tests.exists_of_mem_filesIn ht hscripts hscript
  have hscriptName : c.scriptName = name := by
    rw [Scenario.Compiled.scriptName, Scenario.nameOf, hpath, Path.fileName?_below _ hname]
    rfl
  rw [hscriptName]
  exact ⟨hname, hpath⟩

/-! ## The files of a build directory -/

namespace Graph.Input

variable {i : Input} {m : Manifest}

/-- The names of the files in a build directory, in the order in which they are written. -/
def fileNames (i : Input) : List String :=
  i.scenarios.map i.driverFile ++ [manifestFile]

/-- The files of a build directory, in the order in which they are written: the drivers, and the
manifest at last. -/
def files (i : Input) (root : String) (m : Manifest) : List GeneratedFile :=
  i.scenarios.map (fun s => ⟨Path.join (Path.join root i.buildDirectory) (i.driverFile s),
    s.driver⟩) ++ [⟨Path.join (Path.join root i.buildDirectory) manifestFile, m.render⟩]

theorem map_path_files (root : String) :
    (i.files root m).map (·.path) =
      i.fileNames.map (Path.join (Path.join root i.buildDirectory)) := by
  simp [files, fileNames, Function.comp_def]

theorem isName_fileNames (hnames : ∀ s ∈ i.scenarios, IsName s.scriptName) {name : String}
    (h : name ∈ i.fileNames) : IsName name := by
  rcases List.mem_append.mp h with h | h
  · obtain ⟨s, hs, rfl⟩ := List.mem_map.mp h
    rw [driverFile, ← String.ofList_toList (s := s.scriptName ++ ".driver.c")]
    refine Path.isName_of_length ?_ ?_
    · simp
    · rw [String.toList_append, List.mem_append]
      rintro (hslash | hslash)
      · exact (hnames s hs).2.2 hslash
      · exact absurd hslash (by decide)
  · obtain rfl := List.mem_singleton.mp h
    decide

theorem getLast?_of_mem_fileNames {name : String} (h : name ∈ i.fileNames) :
    name.toList.getLast? = some 'c' ∨ name.toList.getLast? = some 'a' := by
  rcases List.mem_append.mp h with h | h
  · obtain ⟨s, -, rfl⟩ := List.mem_map.mp h
    exact .inl (getLast?_driverFile s)
  · obtain rfl := List.mem_singleton.mp h
    exact .inr (by decide)

theorem nodup_fileNames (hcheck : i.project.check = .ok ()) (hm : i.manifest = .ok m) :
    i.fileNames.Nodup := by
  obtain ⟨library, -, hlibrary, hnodup, -⟩ := exists_soundEdges hcheck hm
  rw [outputs_soundEdges hlibrary, declaredOutputs] at hnodup
  have hscenarios : (i.scenarios.flatMap fun s => [i.driverProgram s, s.script]).Nodup := by
    have hpaths := hnodup.of_map
    rw [List.append_assoc] at hpaths
    exact (List.nodup_append.mp (List.nodup_append.mp hpaths).2.1).1
  have hdrivers : (i.scenarios.map i.driverFile).Nodup := by
    rw [List.Nodup, List.pairwise_map]
    refine (List.nodup_flatMap.mp hscenarios).2.imp fun {s s'} hdisjoint hsame => ?_
    have hprogram : i.driverProgram s = i.driverProgram s' := by
      rw [driverProgram, driverProgram, (String.append_left_inj _).mp hsame]
    exact hdisjoint List.mem_cons_self (hprogram ▸ List.mem_cons_self)
  rw [fileNames, List.nodup_append]
  refine ⟨hdrivers, List.nodup_singleton _, ?_⟩
  intro name hname other hother
  obtain rfl := List.mem_singleton.mp hother
  obtain ⟨s, -, rfl⟩ := List.mem_map.mp hname
  intro hsame
  have hlast := getLast?_driverFile (i := i) s
  rw [hsame] at hlast
  exact absurd hlast (by decide)

end Graph.Input

/-! ## The files of a plan -/

namespace Generation

open FileTree (locate_join)

variable {read : Project.Reader} {t : FileTree} {root : String} {tools : ToolPaths}
  {platform : Platform} {p : Project}
  {inputs : Inputs} {profile : Profile} {g : Graph.Input × Manifest} {files : List GeneratedFile}

/-- The path of the build directory of a profile. -/
def buildPath (root : String) (p : Project) (platform : Platform) (profile : Profile) : String :=
  Path.join root (p.general.out ++ "/" ++ (platform.tag ++ profile.tag))

theorem isName_tag (platform : Platform) (profile : Profile) :
    IsName (platform.tag ++ profile.tag) := by
  cases platform <;> cases profile <;> decide

theorem tag_injective {profile profile' : Profile}
    (h : platform.tag ++ profile.tag = platform.tag ++ profile'.tag) : profile = profile' := by
  rw [String.append_right_inj] at h
  cases profile <;> cases profile' <;> first | rfl | exact absurd h (by decide)

theorem buildPath_eq (root : String) (p : Project) (platform : Platform) (profile : Profile) :
    buildPath root p platform profile =
      Path.join (Path.join root (p.general.out ++ "/")) (platform.tag ++ profile.tag) :=
  Path.join_below root p.general.out (isName_tag platform profile)

theorem locate_buildPath (t : FileTree) (root : String) (p : Project) (platform : Platform)
    (profile : Profile) :
    t.locate (buildPath root p platform profile) =
      t.locate (Path.join root (p.general.out ++ "/")) ++ [platform.tag ++ profile.tag] := by
  rw [buildPath_eq, locate_join t _ (isName_tag platform profile)]

/-- The graph of a profile, with its manifest. -/
def IsGraph (p : Project) (tools : ToolPaths) (platform : Platform) (inputs : Inputs)
    (profile : Profile) (g : Graph.Input × Manifest) : Prop :=
  ∃ toolchain, Toolchain.forProfile platform profile = .ok toolchain ∧
    g.1 = inputFor p tools inputs toolchain ∧ g.1.manifest = .ok g.2

/-- The graphs of the project at a root, one for each profile of the platform. -/
def Graphs (read : Project.Reader) (t : FileTree) (root : String) (tools : ToolPaths)
    (platform : Platform) (graphs : List (Graph.Input × Manifest)) : Prop :=
  ∃ p inputs, loadProject read t root = .ok p ∧ Inputs.collect t root p platform = .ok inputs ∧
    List.Forall₂ (IsGraph p tools platform inputs) platform.profiles graphs

theorem exists_graphs {profiles : List Profile} {parts : List (List GeneratedFile)}
    (h : List.Forall₂ (fun profile part =>
      planProfile root p tools platform inputs profile = .ok part) profiles parts) :
    ∃ graphs, List.Forall₂ (IsGraph p tools platform inputs) profiles graphs ∧
      parts.flatten = graphs.flatMap fun g => g.1.files root g.2 := by
  induction h with
  | nil => exact ⟨[], .nil, rfl⟩
  | cons hpart _ ih =>
    obtain ⟨graphs, hgraphs, hfiles⟩ := ih
    obtain ⟨toolchain, htoolchain, hpart⟩ := planProfile_eq_ok_iff.mp hpart
    obtain ⟨m, hm, rfl⟩ := planDirectory_eq_ok_iff.mp hpart
    refine ⟨(inputFor p tools inputs toolchain, m) :: graphs,
      .cons ⟨toolchain, htoolchain, rfl, hm⟩ hgraphs, ?_⟩
    rw [List.flatten_cons, List.flatMap_cons, hfiles]
    rfl

/-- **The order of a plan**: profile by profile, the drivers and then the manifest. -/
theorem plan_eq_files (h : plan read t root tools platform = .ok files) :
    ∃ graphs, Graphs read t root tools platform graphs ∧
      files = graphs.flatMap fun g => g.1.files root g.2 := by
  obtain ⟨p, inputs, parts, hp, -, hinputs, hparts, rfl⟩ := plan_eq_ok_iff.mp h
  obtain ⟨graphs, hgraphs, hfiles⟩ := exists_graphs hparts
  exact ⟨graphs, ⟨p, inputs, hp, hinputs, hgraphs⟩, hfiles⟩

theorem IsGraph.buildPath (h : IsGraph p tools platform inputs profile g) (root : String) :
    Path.join root g.1.buildDirectory = buildPath root p platform profile := by
  obtain ⟨toolchain, htoolchain, hinput, -⟩ := h
  rw [Toolchain.forProfile] at htoolchain
  split at htoolchain
  · obtain rfl := Except.ok.inj htoolchain
    rw [hinput]
    rfl
  · cases htoolchain

theorem IsGraph.scenarios (h : IsGraph p tools platform inputs profile g) :
    g.1.scenarios = inputs.scenarios := by
  obtain ⟨toolchain, -, hinput, -⟩ := h
  rw [hinput]
  rfl

theorem IsGraph.project (h : IsGraph p tools platform inputs profile g) : g.1.project = p := by
  obtain ⟨toolchain, -, hinput, -⟩ := h
  rw [hinput]
  rfl

theorem check_of_loadProject (h : loadProject read t root = .ok p) : p.check = .ok () := by
  unfold loadProject at h
  simp only [bind_eq_ok_iff, mapError_eq_ok_iff] at h
  obtain ⟨p', -, _, hcheck, h⟩ := h
  obtain rfl := Except.ok.inj h
  exact hcheck

/-- What is known of a name in a build directory. -/
structure PlannedName (name : String) : Prop where
  isName : IsName name
  last : name.toList.getLast? = some 'c' ∨ name.toList.getLast? = some 'a'

theorem IsGraph.plannedName (h : IsGraph p tools platform inputs profile g) (ht : t.WellNamed)
    (hinputs : Inputs.collect t root p platform = .ok inputs) {name : String}
    (hname : name ∈ g.1.fileNames) : PlannedName name := by
  obtain ⟨-, -, -, -, hscenarios, -⟩ := Inputs.collect_eq_ok_iff.mp hinputs
  refine ⟨Graph.Input.isName_fileNames (fun s hs => ?_) hname,
    Graph.Input.getLast?_of_mem_fileNames hname⟩
  rw [h.scenarios] at hs
  exact (Inputs.script_below ht hscenarios hs).1

theorem IsGraph.map_path (h : IsGraph p tools platform inputs profile g) (root : String) :
    (g.1.files root g.2).map (·.path) =
      g.1.fileNames.map (Path.join (Generation.buildPath root p platform profile)) := by
  rw [Graph.Input.map_path_files, h.buildPath]

theorem exists_place (ht : t.WellNamed) (hp : loadProject read t root = .ok p)
    (h : plan read t root tools platform = .ok files) {f : GeneratedFile} (hf : f ∈ files) :
    ∃ profile ∈ platform.profiles, ∃ name, PlannedName name ∧
      f.path = Path.join (buildPath root p platform profile) name := by
  obtain ⟨graphs, ⟨p', inputs, hp', hinputs, hgraphs⟩, rfl⟩ := plan_eq_files h
  obtain rfl := Except.ok.inj (hp.symm.trans hp')
  obtain ⟨g, hg, hf⟩ := List.mem_flatMap.mp hf
  obtain ⟨profile, hprofile, hgraph⟩ := exists_mem_of_forall₂_right hgraphs hg
  have hpath : f.path ∈ (g.1.files root g.2).map (·.path) := List.mem_map_of_mem hf
  rw [hgraph.map_path] at hpath
  obtain ⟨name, hname, hpath⟩ := List.mem_map.mp hpath
  exact ⟨profile, hprofile, name, hgraph.plannedName ht hinputs hname, hpath.symm⟩

theorem IsGraph.map_locate (h : IsGraph p tools platform inputs profile g) (t : FileTree)
    (root : String) (hnames : ∀ name ∈ g.1.fileNames, IsName name) :
    (g.1.files root g.2).map (fun f => t.locate f.path) =
      g.1.fileNames.map fun name => t.locate (Generation.buildPath root p platform profile) ++
        [name] := by
  have hpaths := congrArg (List.map t.locate) (h.map_path root)
  rw [List.map_map, List.map_map] at hpaths
  refine hpaths.trans (List.map_congr_left fun name hname => ?_)
  exact locate_join t _ (hnames name hname)

theorem nodup_places_of_graphs {profiles : List Profile} {graphs : List (Graph.Input × Manifest)}
    (h : List.Forall₂ (IsGraph p tools platform inputs) profiles graphs) (hprofiles : profiles.Nodup)
    (hcheck : p.check = .ok ()) (hnames : ∀ g ∈ graphs, ∀ name ∈ g.1.fileNames, IsName name) :
    ((graphs.flatMap fun g => g.1.files root g.2).map fun f => t.locate f.path).Nodup := by
  induction h with
  | nil => exact List.nodup_nil
  | @cons profile g profiles graphs hg hgraphs ih =>
    obtain ⟨hprofile, hprofiles⟩ := List.nodup_cons.mp hprofiles
    have hrest := ih hprofiles fun g hg => hnames g (List.mem_cons_of_mem _ hg)
    have hfirst := hg.map_locate t root (hnames g List.mem_cons_self)
    rw [List.flatMap_cons, List.map_append, List.nodup_append]
    refine ⟨?_, hrest, ?_⟩
    · obtain ⟨toolchain, -, hinput, hm⟩ := id hg
      rw [hfirst]
      refine (Graph.Input.nodup_fileNames (hg.project ▸ hcheck) hm).map ?_
      intro name name' hsame
      exact (List.cons.inj (List.append_cancel_left hsame)).1
    · -- files of different profiles stand in directories of different names
      intro place hplace place' hplace'
      rw [hfirst] at hplace
      obtain ⟨name, -, rfl⟩ := List.mem_map.mp hplace
      obtain ⟨f, hf, rfl⟩ := List.mem_map.mp hplace'
      obtain ⟨g', hg', hf⟩ := List.mem_flatMap.mp hf
      obtain ⟨profile', hprofile', hgraph⟩ := exists_mem_of_forall₂_right hgraphs hg'
      have hother : t.locate f.path ∈ (g'.1.files root g'.2).map fun f => t.locate f.path :=
        List.mem_map_of_mem hf
      rw [hgraph.map_locate t root (hnames g' (List.mem_cons_of_mem _ hg'))] at hother
      obtain ⟨name', -, hplace'⟩ := List.mem_map.mp hother
      rw [← hplace']
      intro hsame
      have hdirectories := (List.append_inj' hsame rfl).1
      rw [locate_buildPath, locate_buildPath] at hdirectories
      have htags := (List.cons.inj (List.append_cancel_left hdirectories)).1
      exact hprofile (tag_injective htags ▸ hprofile')

/-- **No two planned files stand at the same place.** -/
theorem nodup_places (ht : t.WellNamed) (h : plan read t root tools platform = .ok files) :
    (files.map fun f => t.locate f.path).Nodup := by
  obtain ⟨graphs, ⟨p, inputs, hp, hinputs, hgraphs⟩, rfl⟩ := plan_eq_files h
  have hprofiles : platform.profiles.Nodup := by cases platform <;> decide
  refine nodup_places_of_graphs hgraphs hprofiles (check_of_loadProject hp) fun g hg name hname => ?_
  obtain ⟨profile, -, hgraph⟩ := exists_mem_of_forall₂_right hgraphs hg
  exact (hgraph.plannedName ht hinputs hname).isName

end Generation

end BuildPlan
