import BuildPlan.Generation.Inputs
import BuildPlan.Proofs.Lookup
import BuildPlan.Proofs.Result

/-!
# What the inputs of a generation are read from

Each stage that looks at the files of a project finds the same in two trees that look alike where it
looks: at the test directory and the files in it, at the fuzz directory, and at the directories that
the walk through the headers lists.
-/

namespace BuildPlan

open FileTree (kindOf)
open BuildPlan.Path (components)

variable {t₁ t₂ : FileTree} {root : String}

/-! ## Test files -/

namespace Project.Tests

theorem filesIn_mono {dir : String} {fits : String → Bool} {paths : List String}
    (hnames : ∀ names, t₁.fileNames (Path.join root dir) = .ok names →
      t₂.fileNames (Path.join root dir) = .ok names)
    (h : filesIn t₁ root dir fits = .ok paths) : filesIn t₂ root dir fits = .ok paths := by
  unfold filesIn at h ⊢
  dsimp only at h ⊢
  cases hfound : t₁.fileNames (Path.join root dir) with
  | error e =>
    rw [hfound] at h
    cases h
  | ok names =>
    rw [hfound] at h
    rw [hnames names hfound]
    exact h

theorem filesIn_alike {dir : String} {fits : String → Bool} {paths : List String}
    (hcwd : t₁.cwd = t₂.cwd)
    (hdir : t₁.sight (Path.join root dir) = t₂.sight (Path.join root dir))
    (h : filesIn t₁ root dir fits = .ok paths) : filesIn t₂ root dir fits = .ok paths :=
  filesIn_mono (fun _ => FileTree.fileNames_alike hcwd hdir) h

theorem defineFixture_alike {fallback path : String} {d : TestCase} (hcwd : t₁.cwd = t₂.cwd)
    (hpath : t₁.sight (Path.join root path) = t₂.sight (Path.join root path))
    (h : defineFixture t₁ root fallback path = .ok d) :
    defineFixture t₂ root fallback path = .ok d := by
  unfold defineFixture at h ⊢
  dsimp only at h ⊢
  cases htext : t₁.readText (Path.join root path) with
  | error e =>
    rw [htext] at h
    cases h
  | ok text =>
    rw [htext] at h
    rw [FileTree.readText_alike hcwd hpath htext]
    exact h

theorem defineFixture_path {t : FileTree} {fallback path : String} {d : TestCase}
    (h : defineFixture t root fallback path = .ok d) : d.path = path := by
  unfold defineFixture at h
  dsimp only at h
  split at h
  · cases h
  · split at h
    · cases h
    · rename_i htest
      obtain rfl := Except.ok.inj h
      unfold Fixture.testCase at htest
      split at htest
      · cases htest
      · exact (congrArg TestCase.path (Except.ok.inj htest)).symm

/-- The path is that of a fixture which is left out because it is disabled. -/
def Disabled (tests : Tests) (t : FileTree) (root path : String) : Prop :=
  ∃ pattern paths d, tests.fixtureNames = .ok pattern ∧
    filesIn t root tests.dir pattern.fits = .ok paths ∧ path ∈ paths ∧ path ≠ tests.support ∧
    defineFixture t root tests.fallbackArguments path = .ok d ∧ d.enabled = false

theorem enabledFixtures_eq_ok_iff {tests : Tests} {t : FileTree} {fixtures : List TestCase} :
    tests.enabledFixtures t root = .ok fixtures ↔
      ∃ pattern paths ds, tests.fixtureNames = .ok pattern ∧
        filesIn t root tests.dir pattern.fits = .ok paths ∧
        List.Forall₂ (fun path d => defineFixture t root tests.fallbackArguments path = .ok d)
          (paths.filter (· != tests.support)) ds ∧
        ds.filter TestCase.enabled = fixtures := by
  unfold enabledFixtures
  dsimp only
  constructor
  · intro h
    split at h
    · cases h
    · rename_i pattern hpattern
      split at h
      · cases h
      · rename_i paths hpaths
        split at h
        · cases h
        · rename_i ds hds
          exact ⟨pattern, paths, ds, hpattern, hpaths, mapM_eq_ok_iff.mp hds, Except.ok.inj h⟩
  · rintro ⟨pattern, paths, ds, hpattern, hpaths, hds, rfl⟩
    simp only [hpattern, hpaths, mapM_eq_ok_iff.mpr hds]

/-- Where the enabled fixtures of a tree look alike in another one, and the disabled ones are
disabled there too, the same fixtures are enabled. -/
theorem filter_enabled_alike {tests : Tests} {paths : List String} {ds₁ ds₂ : List TestCase}
    (h₁ : List.Forall₂ (fun path d => defineFixture t₁ root tests.fallbackArguments path = .ok d)
      paths ds₁)
    (h₂ : List.Forall₂ (fun path d => defineFixture t₂ root tests.fallbackArguments path = .ok d)
      paths ds₂)
    (hcwd : t₁.cwd = t₂.cwd)
    (henabled : ∀ d ∈ ds₁.filter TestCase.enabled,
      t₁.sight (Path.join root d.path) = t₂.sight (Path.join root d.path))
    (hdisabled : ∀ path ∈ paths, ∀ d₁ d₂,
      defineFixture t₁ root tests.fallbackArguments path = .ok d₁ → d₁.enabled = false →
      defineFixture t₂ root tests.fallbackArguments path = .ok d₂ → d₂.enabled = false) :
    ds₁.filter TestCase.enabled = ds₂.filter TestCase.enabled := by
  induction h₁ generalizing ds₂ with
  | nil =>
    rw [List.forall₂_nil_left_iff.mp h₂]
  | @cons path d₁ paths ds₁ hd₁ hds₁ ih =>
    obtain ⟨d₂, ds₂, hd₂, hds₂, rfl⟩ := List.forall₂_cons_left_iff.mp h₂
    have hrest := ih hds₂
      (fun d hd => henabled d (by
        rw [List.mem_filter] at hd ⊢
        exact ⟨List.mem_cons_of_mem d₁ hd.1, hd.2⟩))
      fun p hp => hdisabled p (List.mem_cons_of_mem path hp)
    cases he : d₁.enabled with
    | true =>
      have hsight := henabled d₁ (List.mem_filter.mpr ⟨List.mem_cons_self, he⟩)
      rw [defineFixture_path hd₁] at hsight
      have hsame := (defineFixture_alike hcwd hsight hd₁).symm.trans hd₂
      obtain rfl := Except.ok.inj hsame
      rw [List.filter_cons_of_pos he, List.filter_cons_of_pos he, hrest]
    | false =>
      have he₂ := hdisabled path List.mem_cons_self d₁ d₂ hd₁ he hd₂
      rw [List.filter_cons_of_neg (by simp [he]), List.filter_cons_of_neg (by simp [he₂]), hrest]

theorem enabledFixtures_alike {tests : Tests} {fixtures₁ fixtures₂ : List TestCase}
    (h₁ : tests.enabledFixtures t₁ root = .ok fixtures₁)
    (h₂ : tests.enabledFixtures t₂ root = .ok fixtures₂) (hcwd : t₁.cwd = t₂.cwd)
    (hdir : t₁.sight (Path.join root tests.dir) = t₂.sight (Path.join root tests.dir))
    (henabled : ∀ d ∈ fixtures₁,
      t₁.sight (Path.join root d.path) = t₂.sight (Path.join root d.path))
    (hdisabled : ∀ path, tests.Disabled t₁ root path → tests.Disabled t₂ root path) :
    fixtures₁ = fixtures₂ := by
  obtain ⟨pattern, paths, ds₁, hpattern, hpaths, hds₁, rfl⟩ := enabledFixtures_eq_ok_iff.mp h₁
  obtain ⟨pattern₂, paths₂, ds₂, hpattern₂, hpaths₂, hds₂, rfl⟩ := enabledFixtures_eq_ok_iff.mp h₂
  rw [hpattern] at hpattern₂
  obtain rfl := Except.ok.inj hpattern₂
  rw [filesIn_alike hcwd hdir hpaths] at hpaths₂
  obtain rfl := Except.ok.inj hpaths₂
  refine filter_enabled_alike hds₁ hds₂ hcwd henabled ?_
  intro path hpath d₁ d₂ hd₁ he hd₂
  rw [List.mem_filter, bne_iff_ne] at hpath
  obtain ⟨_, _, d, -, -, -, -, hd, he₂⟩ :=
    hdisabled path ⟨pattern, paths, d₁, hpattern, hpaths, hpath.1, hpath.2, hd₁, he⟩
  rw [hd] at hd₂
  exact Except.ok.inj hd₂ ▸ he₂

theorem exists_of_mem_enabledFixtures {tests : Tests} {t : FileTree} {fixtures : List TestCase}
    (h : tests.enabledFixtures t root = .ok fixtures) {d : TestCase} (hd : d ∈ fixtures) :
    ∃ fits paths, filesIn t root tests.dir fits = .ok paths ∧ d.path ∈ paths ∧
      defineFixture t root tests.fallbackArguments d.path = .ok d := by
  obtain ⟨pattern, paths, ds, -, hpaths, hds, rfl⟩ := enabledFixtures_eq_ok_iff.mp h
  obtain ⟨path, hpath, hdefine⟩ := exists_mem_of_forall₂_right hds (List.mem_filter.mp hd).1
  rw [defineFixture_path hdefine]
  exact ⟨pattern.fits, paths, hpaths, (List.mem_filter.mp hpath).1, hdefine⟩

/-! ### Fuzz cases and scenarios -/

theorem fuzzInputs_mono {tests : Tests} {cases : List TestCase}
    (hdir : ∀ dir, tests.fuzz = some dir →
      t₂.isDirectory (Path.join root dir) = t₁.isDirectory (Path.join root dir))
    (hfiles : ∀ dir paths, tests.fuzz = some dir → t₁.isDirectory (Path.join root dir) = true →
      filesIn t₁ root dir (fun _ => true) = .ok paths →
      filesIn t₂ root dir (fun _ => true) = .ok paths)
    (h : tests.fuzzInputs t₁ root = .ok cases) : tests.fuzzInputs t₂ root = .ok cases := by
  unfold fuzzInputs at h ⊢
  cases hfuzz : tests.fuzz with
  | none =>
    rw [hfuzz] at h
    exact h
  | some dir =>
    rw [hfuzz] at h
    dsimp only at h ⊢
    rw [hdir dir hfuzz]
    split_ifs at h ⊢ with hthere
    · cases hpaths : filesIn t₁ root dir fun _ => true with
      | error e =>
        rw [hpaths] at h
        cases h
      | ok paths =>
        rw [hpaths] at h
        rw [hfiles dir paths hfuzz hthere hpaths]
        exact h
    · exact h

theorem fuzzInputs_alike {tests : Tests} {cases : List TestCase} (hcwd : t₁.cwd = t₂.cwd)
    (hthere : ∀ dir, tests.fuzz = some dir → t₁.isDirectory (Path.join root dir) = true →
      t₁.sight (Path.join root dir) = t₂.sight (Path.join root dir))
    (hnot : ∀ dir, tests.fuzz = some dir → t₁.isDirectory (Path.join root dir) = false →
      t₂.isDirectory (Path.join root dir) = false)
    (h : tests.fuzzInputs t₁ root = .ok cases) : tests.fuzzInputs t₂ root = .ok cases := by
  refine fuzzInputs_mono (fun dir hfuzz => ?_) (fun dir _ hfuzz hdir => ?_) h
  · cases hdir : t₁.isDirectory (Path.join root dir) with
    | false => exact hnot dir hfuzz hdir
    | true => exact FileTree.isDirectory_alike hcwd (hthere dir hfuzz hdir) hdir
  · exact filesIn_alike hcwd (hthere dir hfuzz hdir)

theorem exists_of_mem_fuzzInputs {tests : Tests} {cases : List TestCase}
    (h : tests.fuzzInputs t₁ root = .ok cases) {c : TestCase} (hc : c ∈ cases) :
    ∃ dir paths path, tests.fuzz = some dir ∧ filesIn t₁ root dir (fun _ => true) = .ok paths ∧
      path ∈ paths ∧ c = fuzzCase path := by
  unfold fuzzInputs at h
  split at h
  · obtain rfl := Except.ok.inj h
    cases hc
  · rename_i dir hfuzz
    split_ifs at h
    · split at h
      · cases h
      · rename_i paths hpaths
        obtain rfl := Except.ok.inj h
        obtain ⟨path, hpath, rfl⟩ := List.mem_map.mp hc
        exact ⟨dir, paths, path, hfuzz, hpaths, hpath, rfl⟩
    · obtain rfl := Except.ok.inj h
      cases hc

theorem scenarioScripts_mono {tests : Tests} {scripts : List String}
    (hfiles : ∀ fits, filesIn t₁ root tests.dir fits = .ok scripts →
      filesIn t₂ root tests.dir fits = .ok scripts)
    (h : tests.scenarioScripts t₁ root = .ok scripts) :
    tests.scenarioScripts t₂ root = .ok scripts := by
  unfold scenarioScripts at h ⊢
  cases hpattern : tests.scenarioNames with
  | error e =>
    rw [hpattern] at h
    cases h
  | ok pattern =>
    rw [hpattern] at h
    exact hfiles pattern.fits h

theorem exists_filesIn_of_scenarioScripts {tests : Tests} {t : FileTree} {scripts : List String}
    (h : tests.scenarioScripts t root = .ok scripts) :
    ∃ fits, filesIn t root tests.dir fits = .ok scripts := by
  unfold scenarioScripts at h
  split at h
  · cases h
  · exact ⟨_, h⟩

end Project.Tests

namespace Inputs

/-! ## Headers -/

/-- A path that is the root's or a path of its own, taken relative to the root and joined to it
again, is the same path. -/
theorem components_join_relative {path : String}
    (h : Path.isAbsolute path = true ∨ components root <+: components path) :
    components (Path.join root (relative root path)) = components path := by
  by_cases hstarts : components root <+: components path
  · obtain ⟨s, hs, hpath, hlead⟩ := Path.components_stripBase? hstarts
    have hrelative : components (relative root path) = components s := by
      rw [relative, hs, Option.getD_some, Path.components_joinComponents]
    rw [Path.components_join_congr hrelative]
    by_cases hroot : root = ""
    · rw [hroot, Path.join_empty, hpath, hroot]
      rfl
    · obtain ⟨habs, hlead⟩ := hlead hroot
      rw [Path.components_join hroot habs, hpath, Path.components_eq s, hlead, List.nil_append]
  · have habs := h.resolve_right hstarts
    have hnone : Path.stripBase? path root = none := by
      rw [Path.stripBase?, if_neg (by simpa using hstarts)]
    have hrelative : components (relative root path) = components path := by
      rw [relative, hnone, Option.getD_none, Path.components_joinComponents]
    rw [Path.components_join_congr hrelative, Path.join_of_absolute habs]

theorem absolute_or_below_join (root dir : String) :
    Path.isAbsolute (Path.join root dir) = true ∨
      components root <+: components (Path.join root dir) := by
  cases habs : Path.isAbsolute dir with
  | true =>
    left
    rwa [Path.join_of_absolute habs]
  | false =>
    right
    by_cases hroot : root = ""
    · rw [hroot]
      exact List.nil_prefix
    · rw [Path.components_join hroot habs]
      exact List.prefix_append _ _

theorem absolute_or_below_extend {path deeper : String}
    (h : Path.isAbsolute path = true ∨ components root <+: components path)
    (hdeeper : components path <+: components deeper) :
    Path.isAbsolute deeper = true ∨ components root <+: components deeper := by
  refine h.imp (fun habs => ?_) fun hbelow => hbelow.trans hdeeper
  obtain ⟨rest, hrest⟩ := hdeeper
  rw [Path.isAbsolute_iff_head] at habs ⊢
  obtain ⟨behind, hbehind⟩ := List.head?_eq_some_iff.mp habs
  rw [← hrest, hbehind]
  rfl

theorem components_of_mem_walkFrom {t : FileTree} (ht : t.WellNamed) {depth : Nat} {path : String}
    {loc : Location} {item : String × Item} (h : item ∈ t.walkFrom depth path loc) :
    components path <+: components item.1 := by
  induction depth generalizing path loc with
  | zero => cases h
  | succ depth ih =>
    rw [FileTree.walkFrom] at h
    split at h
    · cases h
    · obtain rfl := List.mem_singleton.mp h
      exact List.prefix_refl _
    · rcases List.mem_cons.mp h with rfl | h
      · exact List.prefix_refl _
      · obtain ⟨name, hname, h⟩ := List.mem_flatMap.mp h
        have hdeeper := ih h
        rw [Path.components_join_name (ht.child hname).1] at hdeeper
        exact (List.prefix_append _ _).trans hdeeper

/-- The headers and directories among the items of a walk, by their kinds. -/
def listed (root : String) (kinds : List (String × Bool)) : List String × List String :=
  ((kinds.filter fun k => !k.2 && Path.extension? k.1 == some "h").map (relative root ·.1),
    (kinds.filter (·.2)).map (relative root ·.1))

theorem walkIncludes_eq_ok_iff {t : FileTree} {dir : String} {found : List String × List String} :
    walkIncludes t root dir = .ok found ↔
      ∃ items, t.walk (Path.join root dir) = .ok items ∧ listed root (items.map kindOf) = found := by
  have hheader : isHeader =
      (fun k : String × Bool => !k.2 && Path.extension? k.1 == some "h") ∘ kindOf := by
    funext item
    obtain ⟨path, item⟩ := item
    cases item <;> rfl
  have hdirectory : isDirectory = (·.2) ∘ kindOf := by
    funext item
    rfl
  unfold walkIncludes
  dsimp only
  cases t.walk (Path.join root dir) with
  | error e => simp
  | ok items =>
    simp only [Except.ok.injEq, exists_eq_left', listed, List.filter_map, List.map_map, hheader,
      hdirectory]
    simp only [Function.comp_def, kindOf]

/-- **Headers depend on the directories they are found in.** -/
theorem walkIncludes_alike {dir : String} {found₁ found₂ : List String × List String}
    (h₁ : walkIncludes t₁ root dir = .ok found₁) (h₂ : walkIncludes t₂ root dir = .ok found₂)
    (hcwd : t₁.cwd = t₂.cwd) (ht : t₁.WellNamed)
    (hdirs : ∀ d ∈ found₁.2, t₁.sight (Path.join root d) = t₂.sight (Path.join root d))
    (hnot : t₁.isDirectory (Path.join root dir) = false →
      t₂.isDirectory (Path.join root dir) = false) : found₁ = found₂ := by
  obtain ⟨items₁, hwalk₁, rfl⟩ := walkIncludes_eq_ok_iff.mp h₁
  obtain ⟨items₂, hwalk₂, rfl⟩ := walkIncludes_eq_ok_iff.mp h₂
  refine congrArg (listed root) (FileTree.walk_alike hwalk₁ hwalk₂ hcwd ht ?_ hnot)
  intro p hp
  have hlisted : relative root p ∈ (listed root (items₁.map kindOf)).2 :=
    List.mem_map.mpr ⟨(p, true), List.mem_filter.mpr ⟨List.mem_map.mpr ⟨_, hp, rfl⟩, rfl⟩, rfl⟩
  obtain ⟨loc, item, -, rfl⟩ := FileTree.walk_eq_ok_iff.mp hwalk₁
  have hcomponents := components_join_relative (absolute_or_below_extend
    (absolute_or_below_join root dir) (components_of_mem_walkFrom ht hp))
  rw [← FileTree.sight_congr hcomponents, hdirs _ hlisted, FileTree.sight_congr hcomponents]

/-! ## Watched directories -/

theorem addNew_eq_append (dirs further : List String) :
    ∃ added, addNew dirs further = dirs ++ added := by
  induction further generalizing dirs with
  | nil => exact ⟨[], (List.append_nil dirs).symm⟩
  | cons d further ih =>
    rw [addNew]
    split_ifs
    · exact ih dirs
    · obtain ⟨added, h⟩ := ih (dirs ++ [d])
      exact ⟨d :: added, by rw [h, List.append_assoc, List.singleton_append]⟩

/-- No directory is left out of the watched ones: where it is not added, one with the same components
is there. -/
theorem components_mem_addNew {dirs further : List String} {d : String} (h : d ∈ further) :
    ∃ d' ∈ addNew dirs further, components d' = components d := by
  induction further generalizing dirs with
  | nil => cases h
  | cons e further ih =>
    rw [addNew]
    rcases List.mem_cons.mp h with rfl | h
    · split_ifs with hany
      · obtain ⟨d', hd', hsame⟩ := List.any_eq_true.mp hany
        obtain ⟨added, hadded⟩ := addNew_eq_append dirs further
        rw [hadded]
        exact ⟨d', List.mem_append_left _ hd', beq_iff_eq.mp hsame⟩
      · obtain ⟨added, hadded⟩ := addNew_eq_append (dirs ++ [d]) further
        rw [hadded]
        exact ⟨d, List.mem_append_left _ (List.mem_append_right _ List.mem_cons_self), rfl⟩
    · split_ifs
      · exact ih h
      · exact ih h

theorem mem_watched_tests {t : FileTree} {p : Project} {includeDirs : List String} :
    p.tests.dir ∈ watched t root p includeDirs := by
  obtain ⟨added, h⟩ := addNew_eq_append (p.tests.dir ::
    p.tests.fuzz.toList.filter fun dir => t.isDirectory (Path.join root dir)) includeDirs
  rw [watched, h]
  exact List.mem_append_left _ List.mem_cons_self

theorem mem_watched_fuzz {t : FileTree} {p : Project} {includeDirs : List String} {dir : String}
    (hfuzz : p.tests.fuzz = some dir) (hdir : t.isDirectory (Path.join root dir) = true) :
    dir ∈ watched t root p includeDirs := by
  obtain ⟨added, h⟩ := addNew_eq_append (p.tests.dir ::
    p.tests.fuzz.toList.filter fun dir => t.isDirectory (Path.join root dir)) includeDirs
  rw [watched, h, hfuzz]
  refine List.mem_append_left _ (List.mem_cons_of_mem _ (List.mem_filter.mpr ⟨?_, hdir⟩))
  exact List.mem_singleton_self dir

/-! ## Scenarios -/

theorem scenarioOf_alike {script : String} {c : Scenario.Compiled} (hcwd : t₁.cwd = t₂.cwd)
    (hscript : t₁.sight (Path.join root script) = t₂.sight (Path.join root script))
    (h : scenarioOf t₁ root script = .ok c) : scenarioOf t₂ root script = .ok c := by
  unfold scenarioOf Scenario.Compiled.ofScript at h ⊢
  cases htext : t₁.readText (Path.join root script) with
  | error e =>
    rw [htext] at h
    cases h
  | ok text =>
    rw [htext] at h
    rw [FileTree.readText_alike hcwd hscript htext]
    exact h

theorem scenarioOf_script {t : FileTree} {script : String} {c : Scenario.Compiled}
    (h : scenarioOf t root script = .ok c) : c.script = script := by
  unfold scenarioOf at h
  split at h
  · cases h
  · exact (congrArg Scenario.Compiled.script (Except.ok.inj h)).symm

/-- Fuzz cases are there only for platforms with a profile that fuzzes. -/
theorem fuzzInputs_of_mem_fuzzCasesFor {t : FileTree} {p : Project} {platform : Platform}
    {cases : List TestCase} (h : fuzzCasesFor t root p platform = .ok cases) {c : TestCase}
    (hc : c ∈ cases) : p.tests.fuzzInputs t root = .ok cases := by
  unfold fuzzCasesFor at h
  split_ifs at h
  · exact h
  · obtain rfl := Except.ok.inj h
    cases hc

theorem scenariosOf_eq_ok_iff {t : FileTree} {p : Project} {cs : List Scenario.Compiled} :
    scenariosOf t root p = .ok cs ↔
      ∃ scripts, p.tests.scenarioScripts t root = .ok scripts ∧
        List.Forall₂ (fun script c => scenarioOf t root script = .ok c) scripts cs := by
  unfold scenariosOf
  cases p.tests.scenarioScripts t root with
  | error e => simp
  | ok scripts => simp [mapM_eq_ok_iff]

theorem exists_of_mem_scenariosOf {t : FileTree} {p : Project} {cs : List Scenario.Compiled}
    (h : scenariosOf t root p = .ok cs) {c : Scenario.Compiled} (hc : c ∈ cs) :
    ∃ fits scripts, Project.Tests.filesIn t root p.tests.dir fits = .ok scripts ∧
      c.script ∈ scripts := by
  obtain ⟨scripts, hscripts, hcs⟩ := scenariosOf_eq_ok_iff.mp h
  obtain ⟨script, hscript, hcompiled⟩ := exists_mem_of_forall₂_right hcs hc
  obtain ⟨fits, hpaths⟩ := Project.Tests.exists_filesIn_of_scenarioScripts hscripts
  rw [scenarioOf_script hcompiled]
  exact ⟨fits, scripts, hpaths, hscript⟩

theorem scenariosOf_alike {p : Project} {cs : List Scenario.Compiled} (hcwd : t₁.cwd = t₂.cwd)
    (hdir : t₁.sight (Path.join root p.tests.dir) = t₂.sight (Path.join root p.tests.dir))
    (hscripts : ∀ c ∈ cs, t₁.sight (Path.join root c.script) = t₂.sight (Path.join root c.script))
    (h : scenariosOf t₁ root p = .ok cs) : scenariosOf t₂ root p = .ok cs := by
  obtain ⟨scripts, hfound, hcs⟩ := scenariosOf_eq_ok_iff.mp h
  refine scenariosOf_eq_ok_iff.mpr
    ⟨scripts, Project.Tests.scenarioScripts_mono
      (fun _ => Project.Tests.filesIn_alike hcwd hdir) hfound, ?_⟩
  clear hfound h
  induction hcs with
  | nil => exact .nil
  | @cons script c scripts cs hc hcs ih =>
    have hsight := hscripts c List.mem_cons_self
    rw [scenarioOf_script hc] at hsight
    exact .cons (scenarioOf_alike hcwd hsight hc)
      (ih fun d hd => hscripts d (List.mem_cons_of_mem c hd))

end Inputs

end BuildPlan
