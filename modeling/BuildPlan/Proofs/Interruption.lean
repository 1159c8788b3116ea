import BuildPlan.Proofs.Placement
import BuildPlan.Proofs.Staging

/-!
# What a failed generation leaves behind

Until everything is planned nothing is written, so an error of the plan leaves the tree alone. After
that files are written in the order of the plan, and the first that cannot be written ends the
generation (`writePlanWith_cases`), whether something stands in its way or the file to the side meets
with trouble. What is there then is a front of the plan, as `run_error` says.
-/

namespace BuildPlan

open BuildPlan.Path (components)
open FileTree (Grows Trouble Writer)
open Ninja (Manifest)

namespace Graph.Input

theorem exists_scenario_of_rule {i : Input} {library e : Ninja.Edge}
    (hlibrary : i.IsLibraryEdge library) (he : IsEdge i library e)
    (hrule : e.rule = RuleName.compileDriver.text) :
    ∃ s ∈ i.scenarios, e.inputs.head? = some (.literal (i.driverFile s)) := by
  rcases stage_lt_or_scenario hlibrary he with ⟨name, hname, hlt⟩ | ⟨s, hs, he⟩ | rfl
  · obtain rfl := RuleName.text_injective (hname.symm.trans hrule)
    exact absurd hlt (by decide)
  · rcases List.mem_pair.mp he with rfl | rfl
    · exact ⟨s, hs, rfl⟩
    · exact absurd hrule (show RuleName.runDriver.text ≠ RuleName.compileDriver.text by decide)
  · exact absurd hrule (show Ninja.phony ≠ RuleName.compileDriver.text by decide)

/-- The drivers of a build directory stand in the plan in front of its manifest. -/
theorem drivers_mem_of_manifest_mem {i : Input} {root : String} {m : Manifest}
    {before after done rest : List GeneratedFile}
    (hsplit : before ++ i.files root m ++ after = done ++ rest)
    (hnodup : (done ++ rest).Nodup)
    (hmem : ⟨Path.join (Path.join root i.buildDirectory) manifestFile, m.render⟩ ∈ done)
    {s : Scenario.Compiled} (hs : s ∈ i.scenarios) :
    ⟨Path.join (Path.join root i.buildDirectory) (i.driverFile s), s.driver⟩ ∈ done := by
  have hdriver : (⟨Path.join (Path.join root i.buildDirectory) (i.driverFile s), s.driver⟩ :
      GeneratedFile) ∈ i.scenarios.map fun s =>
        ⟨Path.join (Path.join root i.buildDirectory) (i.driverFile s), s.driver⟩ :=
    List.mem_map_of_mem hs
  generalize hdrivers : (i.scenarios.map fun s =>
    (⟨Path.join (Path.join root i.buildDirectory) (i.driverFile s), s.driver⟩ :
      GeneratedFile)) = drivers at hdriver
  rw [files, hdrivers, List.append_assoc, List.append_assoc, ← List.append_assoc] at hsplit
  rcases List.append_eq_append_iff.mp hsplit with ⟨between, hdone, -⟩ | ⟨between, -, hrest⟩
  · rw [hdone]
    exact List.mem_append_left _ (List.mem_append_right _ hdriver)
  · -- the manifest would stand both in the front and behind it
    have hlater : ⟨Path.join (Path.join root i.buildDirectory) manifestFile, m.render⟩ ∈ rest := by
      rw [hrest]
      exact List.mem_append_right _ List.mem_cons_self
    exact absurd rfl ((List.nodup_append.mp hnodup).2.2 _ hmem _ hlater)

end Graph.Input

namespace Generation

section

variable {read : Project.Reader} {write : Writer} {t t' : FileTree} {root : String}
  {tools : ToolPaths} {platform : Platform}
  {files : List GeneratedFile} {e : GenerationError} {path : String} {reason : FileError}

/-! ## Errors of the plan -/

theorem loadProject_ne_unwritten : loadProject read t root ≠ .error (.unwritten path reason) := by
  intro h
  unfold loadProject at h
  simp only [bind_eq_error_iff, mapError_eq_error_iff] at h
  rcases h with ⟨_, -, h⟩ | ⟨p, -, ⟨_, -, h⟩ | ⟨_, -, h⟩⟩ <;> cases h

theorem checkRequired_ne_unwritten {p : Project} :
    Inputs.checkRequired t root p tools ≠ .error (.unwritten path reason) := by
  intro h
  unfold Inputs.checkRequired at h
  split at h
  · cases h
  · split at h <;> cases h

theorem scenariosOf_ne_unwritten {p : Project} :
    Inputs.scenariosOf t root p ≠ .error (.unwritten path reason) := by
  intro h
  unfold Inputs.scenariosOf at h
  split at h
  · cases h
  · obtain ⟨script, -, h⟩ := exists_of_mapM_eq_error h
    unfold Inputs.scenarioOf at h
    split at h <;> cases h

theorem collect_ne_unwritten {p : Project} :
    Inputs.collect t root p platform ≠ .error (.unwritten path reason) := by
  intro h
  unfold Inputs.collect at h
  simp only [bind_eq_error_iff, mapError_eq_error_iff] at h
  rcases h with h | ⟨_, -, ⟨_, -, h⟩ | ⟨_, -, ⟨_, -, h⟩ | ⟨_, -, h | ⟨_, -, h⟩⟩⟩⟩
  · unfold Inputs.walkIncludes at h
    dsimp only at h
    split at h <;> cases h
  · cases h
  · cases h
  · exact scenariosOf_ne_unwritten h
  · cases h

theorem planProfile_ne_unwritten {p : Project} {inputs : Inputs} {profile : Profile} :
    planProfile root p tools platform inputs profile ≠ .error (.unwritten path reason) := by
  intro h
  unfold planProfile planDirectory at h
  split at h
  · cases h
  · split at h <;> cases h

theorem plan_ne_unwritten : plan read t root tools platform ≠ .error (.unwritten path reason) := by
  intro h
  unfold plan at h
  simp only [bind_eq_error_iff] at h
  rcases h with h | ⟨p, -, h | ⟨_, -, h | ⟨inputs, -, h | ⟨parts, -, h⟩⟩⟩⟩
  · exact loadProject_ne_unwritten h
  · exact checkRequired_ne_unwritten h
  · exact collect_ne_unwritten h
  · obtain ⟨profile, -, h⟩ := exists_of_mapM_eq_error h
    exact planProfile_ne_unwritten h
  · cases h

/-! ## Writing a plan -/

theorem run_of_plan (h : plan read t root tools platform = .ok files) :
    run read t root tools platform = writePlan t {} files := by
  unfold run
  simp only [h]

/-- A directory on the way to one of the files. -/
def Leads (t : FileTree) (files : List GeneratedFile) (loc : Location) : Prop :=
  ∃ f ∈ files, t.OnWay (components f.path).dropLast loc

def Holds (t : FileTree) (files : List GeneratedFile) (loc : Location) : Prop :=
  ∃ f ∈ files, loc = t.locate f.path

/-- Writes planned files in order and in the given way, up to the first that cannot be written. -/
def writePlanWith (write : Writer) (t : FileTree) (r : GenerationReport) :
    List GeneratedFile → FileTree × Except GenerationError GenerationReport
  | [] => (t, .ok r)
  | file :: rest =>
    match write t file.path (Text.toUtf8 file.contents) with
    | (t, .error e) => (t, .error (.unwritten file.path e))
    | (t, .ok outcome) => writePlanWith write t (report r file.path outcome) rest

theorem writePlan_eq_writePlanWith (t : FileTree) (r : GenerationReport)
    (files : List GeneratedFile) : writePlan t r files = writePlanWith FileTree.update t r files := by
  induction files generalizing t r with
  | nil => rfl
  | cons file files ih =>
    rw [writePlan, writePlanWith]
    cases t.update file.path (Text.toUtf8 file.contents) with
    | mk t₁ outcome =>
      cases outcome with
      | error e => rfl
      | ok effect => exact ih t₁ _

/-- **Writing a plan**: the files of its front are written, and the next one, if there is one,
cannot be. -/
theorem writePlanWith_cases (hwrite : write.Sound) {r : GenerationReport}
    {result : Except GenerationError GenerationReport}
    (h : writePlanWith write t r files = (t', result))
    (hnodup : (files.map fun f => t.locate f.path).Nodup) :
    ∃ done rest, files = done ++ rest ∧ Grows (Leads t files) (Holds t done) t t' ∧
      (∀ f ∈ done, t'.read f.path = .ok (Text.toUtf8 f.contents)) ∧
      ((rest = [] ∧ ∃ r', result = .ok r') ∨
        ∃ f later reason, rest = f :: later ∧ result = .error (.unwritten f.path reason)) := by
  induction files generalizing t r with
  | nil =>
    obtain ⟨rfl, rfl⟩ := Prod.mk.inj h
    exact ⟨[], [], rfl, .refl, by simp, .inl ⟨rfl, r, rfl⟩⟩
  | cons file files ih =>
    rw [writePlanWith] at h
    split at h
    · rename_i t₁ reason hfailed
      obtain ⟨rfl, rfl⟩ := Prod.mk.inj h
      refine ⟨[], file :: files, rfl, ?_, by simp, .inr ⟨file, files, reason, rfl, rfl⟩⟩
      exact (hwrite.error hfailed).mono (fun _ h => ⟨file, List.mem_cons_self, h⟩)
        fun _ h => h.elim
    · rename_i t₁ effect hwritten
      obtain ⟨hfirst, hread⟩ := hwrite.ok hwritten
      obtain ⟨hnot, hnodup⟩ := List.nodup_cons.mp hnodup
      have hplaces : (files.map fun f => t₁.locate f.path) = files.map fun f => t.locate f.path := by
        simp only [hfirst.locate]
      obtain ⟨done, rest, rfl, hlater, hreads, hend⟩ := ih h (hplaces ▸ hnodup)
      have hleads : ∀ loc, Leads t₁ (done ++ rest) loc → Leads t (file :: (done ++ rest)) loc := by
        rintro loc ⟨f, hf, hloc⟩
        refine ⟨f, List.mem_cons_of_mem _ hf, ?_⟩
        simpa only [FileTree.OnWay, hfirst.cwd] using hloc
      have hholds : ∀ loc, Holds t₁ done loc → Holds t (file :: done) loc := by
        rintro loc ⟨f, hf, rfl⟩
        exact ⟨f, List.mem_cons_of_mem _ hf, hfirst.locate f.path⟩
      refine ⟨file :: done, rest, rfl, ?_, ?_, hend⟩
      · refine (hfirst.mono (fun loc h => ?_) fun loc h => ?_).trans (hlater.mono hleads hholds)
        · exact ⟨file, List.mem_cons_self, h⟩
        · exact ⟨file, List.mem_cons_self, h⟩
      · intro f hf
        rcases List.mem_cons.mp hf with rfl | hf
        · -- no later file is put where this one is
          refine hlater.read ?_ hread
          rintro ⟨other, hother, hsame⟩
          rw [hfirst.locate, hfirst.locate] at hsame
          exact hnot (List.mem_map.mpr ⟨other, List.mem_append_left rest hother, hsame.symm⟩)
        · exact hreads f hf

theorem writePlan_ok {r r' : GenerationReport} (h : writePlan t r files = (t', .ok r'))
    (hnodup : (files.map fun f => t.locate f.path).Nodup) :
    Grows (Leads t files) (Holds t files) t t' ∧
      ∀ f ∈ files, t'.read f.path = .ok (Text.toUtf8 f.contents) := by
  rw [writePlan_eq_writePlanWith] at h
  obtain ⟨done, rest, hsplit, hgrows, hreads, ⟨rfl, -⟩ | ⟨f, later, reason, -, herror⟩⟩ :=
    writePlanWith_cases FileTree.sound_update h hnodup
  · obtain rfl : files = done := by rw [hsplit, List.append_nil]
    exact ⟨hgrows, hreads⟩
  · cases herror

/-! ## Interrupted generations -/

/-- A generation for `t` that ended with `t'` because it could not write the file at a path: the
files `done` in front of that one are there, nothing else has changed but for new directories, and a
manifest among them finds the drivers that it names. -/
def Interrupted (read : Project.Reader) (t t' : FileTree) (root : String) (tools : ToolPaths)
    (platform : Platform) (path : String) : Prop :=
  ∃ graphs done contents rest, Graphs read t root tools platform graphs ∧
    (graphs.flatMap fun g => g.1.files root g.2) = done ++ ⟨path, contents⟩ :: rest ∧
    (∀ f ∈ done, t'.read f.path = .ok (Text.toUtf8 f.contents)) ∧
    (∀ loc, (∀ f ∈ done, loc ≠ t.locate f.path) →
      t'.at? loc = t.at? loc ∨ (t.at? loc = none ∧ t'.at? loc = some .directory)) ∧
    ∀ g ∈ graphs,
      ⟨Path.join (Path.join root g.1.buildDirectory) Graph.manifestFile, g.2.render⟩ ∈ done →
      ∀ e ∈ g.2.edges, e.rule = Graph.RuleName.compileDriver.text →
        ∃ s ∈ g.1.scenarios, e.inputs.head? = some (.literal (g.1.driverFile s)) ∧
          t'.read (Path.join (Path.join root g.1.buildDirectory) (g.1.driverFile s)) =
            .ok (Text.toUtf8 s.driver)

theorem interrupted_of_writePlanWith (hwrite : write.Sound) (ht : t.WellNamed)
    (hplan : plan read t root tools platform = .ok files)
    (h : writePlanWith write t {} files = (t', .error e)) :
    ∃ path reason, e = .unwritten path reason ∧ Interrupted read t t' root tools platform path := by
  have hnodup := nodup_places ht hplan
  obtain ⟨graphs, hgraphs, rfl⟩ := plan_eq_files hplan
  obtain ⟨done, rest, hsplit, hgrows, hreads, ⟨-, r, hok⟩ | ⟨f, later, reason, rfl, herror⟩⟩ :=
    writePlanWith_cases hwrite h hnodup
  · cases hok
  · obtain rfl := Except.error.inj herror
    refine ⟨f.path, reason, rfl, graphs, done, f.contents, later, hgraphs, hsplit, hreads, ?_, ?_⟩
    · intro loc hloc
      rcases hgrows.at?_cases loc with hsame | ⟨-, hnone, hdir⟩ | ⟨⟨f, hf, rfl⟩, -⟩
      · exact .inl hsame
      · exact .inr ⟨hnone, hdir⟩
      · exact absurd rfl (hloc f hf)
    · intro g hg hmanifest edge hedge hrule
      obtain ⟨p, inputs, hp, hinputs, hall⟩ := hgraphs
      obtain ⟨profile, -, hgraph⟩ := exists_mem_of_forall₂_right hall hg
      obtain ⟨toolchain, -, -, hm⟩ := id hgraph
      obtain ⟨library, -, hlibrary, -, -, hedges⟩ :=
        Graph.Input.exists_soundEdges (hgraph.project ▸ check_of_loadProject hp) hm
      rw [hedges] at hedge
      obtain ⟨s, hs, hhead⟩ := Graph.Input.exists_scenario_of_rule hlibrary
        (Graph.Input.mem_soundEdges.mp hedge) hrule
      refine ⟨s, hs, hhead, ?_⟩
      -- the manifest is among the files written, so its drivers, which come before it, are too
      obtain ⟨before, after, rfl⟩ := List.append_of_mem hg
      rw [List.flatMap_append, List.flatMap_cons, ← List.append_assoc] at hsplit
      rw [List.flatMap_append, List.flatMap_cons, ← List.append_assoc, hsplit] at hnodup
      have hread := hreads _
        (Graph.Input.drivers_mem_of_manifest_mem hsplit hnodup.of_map hmanifest hs)
      exact hread

/-- What a generation for `t` that failed and ended with `t'` may have done: nothing, or it could
not write a file and left a front of its plan. -/
structure Failed (read : Project.Reader) (t t' : FileTree) (root : String) (tools : ToolPaths)
    (platform : Platform) (e : GenerationError) : Prop where
  untouched : (∀ path reason, e ≠ .unwritten path reason) → t' = t
  interrupted : ∀ path reason, e = .unwritten path reason →
    Interrupted read t t' root tools platform path

/-- Generates build files, each written in the given way. -/
def runWith (write : Writer) (read : Project.Reader) (t : FileTree) (root : String)
    (tools : ToolPaths) (platform : Platform) :
    FileTree × Except GenerationError GenerationReport :=
  match plan read t root tools platform with
  | .error e => (t, .error e)
  | .ok files => writePlanWith write t {} files

theorem run_eq_runWith (read : Project.Reader) (t : FileTree) (root : String) (tools : ToolPaths)
    (platform : Platform) :
    run read t root tools platform = runWith FileTree.update read t root tools platform := by
  rw [run, runWith]
  cases plan read t root tools platform with
  | error e => rfl
  | ok files => exact writePlan_eq_writePlanWith t {} files

theorem failed_of_runWith (hwrite : write.Sound) (ht : t.WellNamed)
    (h : runWith write read t root tools platform = (t', .error e)) :
    Failed read t t' root tools platform e := by
  rw [runWith] at h
  split at h
  · rename_i e' hplan
    obtain ⟨rfl, he⟩ := Prod.mk.inj h
    obtain rfl := Except.error.inj he
    refine ⟨fun _ => rfl, ?_⟩
    rintro path reason rfl
    exact absurd hplan plan_ne_unwritten
  · rename_i files hplan
    obtain ⟨path, reason, rfl, hinterrupted⟩ := interrupted_of_writePlanWith hwrite ht hplan h
    refine ⟨fun hnot => absurd rfl (hnot path reason), ?_⟩
    rintro path' reason' hsame
    obtain ⟨rfl, rfl⟩ := GenerationError.unwritten.inj hsame
    exact hinterrupted

/-- **A failed generation** leaves the tree as it was, or it could not write a file and leaves a
front of its plan. It is so as well when each file is written to the side first, whatever happens to
it there. -/
theorem run_error (ht : t.WellNamed) :
    (∀ t' e, run read t root tools platform = (t', .error e) →
      Failed read t t' root tools platform e) ∧
    ∀ names trouble t' e,
      runWith (FileTree.writerAside names trouble) read t root tools platform = (t', .error e) →
        Failed read t t' root tools platform e := by
  refine ⟨fun t' e h => ?_, fun names trouble t' e h => ?_⟩
  · rw [run_eq_runWith] at h
    exact failed_of_runWith FileTree.sound_update ht h
  · exact failed_of_runWith (FileTree.sound_writerAside names trouble) ht h

end

namespace Sample

/-- A directory stands where the second manifest is to be written. -/
def blocked : FileTree :=
  treeOf "// DISABLED" (.file [] false) [(["p", "out"], .directory),
    (["p", "out", "wr"], .directory), (["p", "out", "wr", "build.ninja"], .directory)]

theorem plan_blocked : plan Project.parse? blocked "p" tools .windows =
    .ok ([Profile.debug, .release, .asan].map (planned ["test"] [])) := by
  have hproject : loadProject Project.parse? blocked "p" = .ok project := loadProject_treeOf _ _ _
  have hrequired : Inputs.checkRequired blocked "p" project tools = .ok () := by decide +kernel
  have hinputs : Inputs.collect blocked "p" project .windows = .ok (inputs ["test"] []) := by
    decide +kernel
  exact plan_eq hproject hrequired hinputs buildable_original

theorem run_blocked : (run Project.parse? blocked "p" tools .windows).2 =
    .error (.unwritten "p/out/wr/build.ninja" .isDirectory) := by
  rw [run_of_plan plan_blocked]
  decide +kernel

def sideName (_ : FileTree) (_ : String) : List String :=
  [".tmp"]

/-- The file to the side of the second manifest takes one byte. -/
def fullAtRelease (_ : FileTree) (path : String) : Option Trouble :=
  if path = "p/out/wr/build.ninja" then some (.filling 1 .noTree) else none

theorem runWith_original :
    (runWith (FileTree.writerAside sideName fullAtRelease) Project.parse? original "p" tools
      .windows).2 = .error (.unwritten "p/out/wr/build.ninja" .noTree) := by
  rw [runWith, plan_original]
  decide +kernel

theorem run_error_blocked :
    (∃ t', run Project.parse? blocked "p" tools .windows =
        (t', .error (.unwritten "p/out/wr/build.ninja" .isDirectory)) ∧
      Interrupted Project.parse? blocked t' "p" tools .windows "p/out/wr/build.ninja") ∧
    ∃ t', runWith (FileTree.writerAside sideName fullAtRelease) Project.parse? original "p" tools
        .windows = (t', .error (.unwritten "p/out/wr/build.ninja" .noTree)) ∧
      Interrupted Project.parse? original t' "p" tools .windows "p/out/wr/build.ninja" := by
  have hblocked : blocked.WellNamed := by decide +kernel
  have horiginal : original.WellNamed := by decide +kernel
  have hrun := eq_of_snd run_blocked
  have hfull := eq_of_snd runWith_original
  exact ⟨⟨_, hrun, ((run_error hblocked).1 _ _ hrun).interrupted _ _ rfl⟩,
    _, hfull, ((run_error horiginal).2 _ _ _ _ hfull).interrupted _ _ rfl⟩

end Sample

end Generation

end BuildPlan
