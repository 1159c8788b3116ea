import BuildPlan.Proofs.Interruption
import Mathlib.Data.List.Induction

/-!
# Generating twice

A second generation finds everything written and writes nothing (`run_twice`), as long as the first
one does not change what the generator sees. The files that it writes are below the build
directories; but it also makes the directories that are missing on the way to these, which may be
elsewhere where the way goes up again. Such a directory matters below the directory of headers, and
where it is, or opens the way to, the directory of fuzz cases (`Settled`).
-/

namespace BuildPlan

open BuildPlan.Path (components IsName)

/-! ## Places out of reach -/

namespace FileTree

variable {t t' : FileTree} {dirs files : Location → Prop} {path : String} {top loc : Location}

/-- Everything in the tree stands in a directory. -/
def Rooted (t : FileTree) : Prop :=
  ∀ item ∈ t.items, t.at? item.1.dropLast = some .directory

instance (t : FileTree) : Decidable t.Rooted :=
  inferInstanceAs (Decidable (∀ item ∈ t.items, _ = _))

theorem Rooted.parent (ht : t.Rooted) {name : String} (h : (t.at? (loc ++ [name])).isSome = true) :
    t.at? loc = some .directory := by
  obtain ⟨first, rest, hcons⟩ := List.exists_cons_of_ne_nil (List.concat_ne_nil name loc)
  rw [hcons, at?, Option.isSome_map, List.find?_isSome, ← hcons] at h
  obtain ⟨item, hitem, hloc⟩ := h
  have hparent := ht item hitem
  rwa [eq_of_beq hloc, List.dropLast_concat] at hparent

/-- Nothing is made or put at or below a place. -/
def Spared (dirs files : Location → Prop) (top : Location) : Prop :=
  ∀ loc, top <+: loc → ¬ dirs loc ∧ ¬ files loc

theorem Spared.below {name : String} (h : Spared dirs files top) :
    Spared dirs files (top ++ [name]) :=
  fun loc hloc => h loc ((List.prefix_append top [name]).trans hloc)

namespace Grows

theorem at?_spared (h : Grows dirs files t t') (htop : Spared dirs files top) :
    t'.at? top = t.at? top :=
  h.at?_eq (htop top (List.prefix_refl top)).1 (htop top (List.prefix_refl top)).2

theorem children_spared (h : Grows dirs files t t') (htop : Spared dirs files top) :
    t'.children top = t.children top :=
  h.children_eq (fun name => (htop _ (List.prefix_append top [name])).1)
    fun name => (htop _ (List.prefix_append top [name])).2

theorem walkFrom_spared (h : Grows dirs files t t') (depth : Nat) (path : String)
    (htop : Spared dirs files top) : t'.walkFrom depth path top = t.walkFrom depth path top := by
  induction depth generalizing path top with
  | zero => rfl
  | succ depth ih =>
    rw [walkFrom, walkFrom, h.at?_spared htop, h.children_spared htop]
    simp only [ih _ htop.below]

theorem walk_spared (h : Grows dirs files t t') {items : List (String × Item)}
    (hwalk : t.walk path = .ok items) (htop : Spared dirs files (t.locate path)) :
    t'.walk path = .ok items := by
  obtain ⟨loc, item, hlookup, rfl⟩ := walk_eq_ok_iff.mp hwalk
  obtain ⟨hcheck, hreached, hat, hask⟩ := lookup_eq_ok_iff.mp hlookup
  obtain rfl := locate_of_reached hreached
  have hlookup' : t'.lookup path = .ok (t.locate path, item) :=
    lookup_eq_ok_iff.mpr ⟨hcheck, h.reached hreached, (h.at?_spared htop).trans hat, hask⟩
  refine walk_eq_ok_iff.mpr ⟨_, item, hlookup', ?_⟩
  -- the walks go as deep as both trees together
  rw [← walkFrom_add t.depthBound (Nat.le_add_left _ _),
    ← walkFrom_add t'.depthBound (Nat.le_add_left t.depthBound _), Nat.add_comm t'.depthBound]
  exact h.walkFrom_spared _ path htop

theorem sight_of_read (h : Grows dirs files t t') {data : Bytes} (hread : t.read path = .ok data)
    (hfiles : ¬ files (t.locate path)) : t.sight path = t'.sight path := by
  obtain ⟨-, -, hreached, executable, hat⟩ := read_eq_ok_iff.mp hread
  rw [sight_of_reached hreached, sight_of_reached (h.reached hreached),
    sightAt_eq_file.mpr ⟨executable, hat⟩,
    sightAt_eq_file.mpr ⟨executable, h.at?_file hfiles hat⟩]

end Grows

theorem stepTo_back {part : List Char} (h : t'.stepTo top part = .ok loc)
    (hdir : t.at? top = some .directory) (hsome : (t.at? loc).isSome = true) :
    t.stepTo top part = .ok loc := by
  have hhas : t.hasDirectory top = true := by rw [hasDirectory, hdir, beq_self_eq_true]
  rw [stepTo] at h ⊢
  rw [hhas, if_neg (by simp)]
  split at h
  · cases h
  · split at h
    · rename_i hup
      rw [if_pos hup]
      exact h
    · rename_i hup
      rw [if_neg hup]
      dsimp only at h ⊢
      split_ifs at h with hlong hthere
      obtain rfl := Except.ok.inj h
      rw [if_neg hlong, if_pos hsome]

theorem directory_of_stepTo {part : List Char} (h : t.stepTo top part = .ok loc) :
    t.at? top = some .directory := by
  rw [stepTo] at h
  split at h
  · cases h
  · rename_i hdir
    simpa [hasDirectory] using hdir

theorem exists_of_follow_concat {front : List Component} {c : Component} {start : Location}
    (h : t.follow start (front ++ [c]) = .ok loc) :
    ∃ mid, t.follow start front = .ok mid ∧ t.along mid c = .ok loc := by
  induction front generalizing start with
  | nil =>
    rw [List.nil_append, follow] at h
    refine ⟨start, rfl, ?_⟩
    cases hc : t.along start c with
    | error e =>
      rw [hc] at h
      cases h
    | ok next =>
      rw [hc] at h
      exact h
  | cons d front ih =>
    rw [List.cons_append, follow] at h
    rw [follow]
    cases hd : t.along start d with
    | error e =>
      rw [hd] at h
      cases h
    | ok next =>
      rw [hd] at h
      exact ih h

/-- A path that leads somewhere now led there before, if something stood there and the path does not
go up from a directory that was made since. -/
theorem Grows.reached_back (h : Grows dirs files t t') (ht : t.Rooted)
    (hup : ∀ front, front ++ [.parent] <+: components path → ¬ dirs (front.foldl landing t.cwd))
    (hreached : t'.reached path = .ok loc) (hsome : (t.at? loc).isSome = true) :
    t.reached path = .ok loc := by
  have hsteps : Path.lead path ++ Path.steps path <+: components path :=
    Path.components_eq path ▸ List.prefix_refl _
  have hall : ∀ c ∈ Path.steps path, Path.IsStep c := fun c hc => Path.isStep_of_mem_steps hc
  rw [reached_eq_follow, h.cwd, Path.components_eq] at hreached
  rw [reached_eq_follow, Path.components_eq]
  generalize Path.steps path = steps at hreached hsteps hall ⊢
  -- from the end of the path, as it is known of the end that something stood there
  induction steps using List.reverseRecOn generalizing loc with
  | nil =>
    rw [← h.cwd, follow_lead] at hreached
    rw [follow_lead]
    rw [start, h.cwd] at hreached
    exact hreached
  | append_singleton front c ih =>
    rw [← List.append_assoc] at hreached hsteps ⊢
    have hfront : Path.lead path ++ front <+: components path :=
      (List.prefix_append _ _).trans hsteps
    obtain ⟨mid, hmid, halong⟩ := exists_of_follow_concat hreached
    have hback : t.at? mid = some .directory →
        t.follow t.cwd (Path.lead path ++ front) = .ok mid := fun hdir =>
      ih (by rw [hdir]; rfl) hmid hfront fun d hd => hall d (List.mem_append_left _ hd)
    cases c with
    | root => exact (hall .root (by simp)).elim
    | current => exact (hall .current (by simp)).elim
    | parent =>
      have hplace : mid = (Path.lead path ++ front).foldl landing t.cwd :=
        follow_ok (fun d hd => isName_of_mem_components (hfront.subset hd)) hmid
      have hdir : t.at? mid = some .directory := by
        rcases h.at?_cases mid with hsame | ⟨hmade, -⟩ | ⟨-, -, data, hfile⟩
        · rw [← hsame, directory_of_stepTo halong]
        · exact absurd (hplace ▸ hmade) (hup _ hsteps)
        · rw [directory_of_stepTo halong] at hfile
          cases hfile
      rw [follow_concat _ (hback hdir)]
      exact stepTo_back halong hdir hsome
    | name s =>
      have hname : Path.IsName s := hall (.name s) (by simp)
      have hloc : loc = mid ++ [s] := along_ok (fun _ h => by cases h; exact hname) halong
      have hdir : t.at? mid = some .directory := ht.parent (hloc ▸ hsome)
      rw [follow_concat _ (hback hdir)]
      exact stepTo_back halong hdir hsome

theorem prefix_landing {cs : List Component} (hcs : ∀ c ∈ cs, Path.IsStep c) (hup : .parent ∉ cs)
    (loc : Location) : loc <+: cs.foldl landing loc := by
  induction cs generalizing loc with
  | nil => exact List.prefix_refl loc
  | cons c cs ih =>
    have hrest := ih (fun d hd => hcs d (List.mem_cons_of_mem c hd))
      fun hmem => hup (List.mem_cons_of_mem c hmem)
    cases c with
    | root => exact (hcs .root List.mem_cons_self).elim
    | current => exact (hcs .current List.mem_cons_self).elim
    | parent => exact absurd List.mem_cons_self hup
    | name s => exact (List.prefix_append loc [s]).trans (hrest _)

theorem OnWay.above (h : t.OnWay (components path) loc) (hup : .parent ∉ components path) :
    loc <+: t.locate path := by
  obtain ⟨front, name, ⟨rest, hrest⟩, rfl⟩ := h
  have hsteps : ∀ c ∈ rest, Path.IsStep c := by
    intro c hc
    have htail : c ∈ (components path).tail := by
      rw [← hrest]
      cases front with
      | nil => exact hc
      | cons d front => simp [hc]
    exact Path.isStep_of_mem_tail htail
  rw [locate_eq, ← hrest, List.foldl_append (l := front ++ _)]
  exact prefix_landing hsteps (fun hmem => hup (hrest ▸ List.mem_append_right _ hmem)) _

theorem exists_read_of_readText {text : String} (h : t.readText path = .ok text) :
    ∃ data, t.read path = .ok data := by
  rw [readText] at h
  split at h
  · cases h
  · rename_i data hread
    exact ⟨data, hread⟩

end FileTree

/-! ## Build directories apart from what is read -/

namespace Project

/-- The directories of a project that a generation lists. -/
def listedDirectories (p : Project) : List String :=
  p.includes.dir :: p.tests.dir :: p.tests.fuzz.toList

end Project

namespace Generation

section

open FileTree (Grows Spared landing)

variable {read : Project.Reader} {t t' : FileTree} {root : String} {tools : ToolPaths}
  {platform : Platform} {p : Project}
  {files : List GeneratedFile} {inputs : Inputs}

/-- No build directory is one of the directories that are listed, nor above or below one. -/
def BuildsApart (t : FileTree) (root : String) (p : Project) (platform : Platform) : Prop :=
  ∀ profile ∈ platform.profiles, ∀ dir ∈ p.listedDirectories,
    ¬ t.locate (Path.join root dir) <+: t.locate (buildPath root p platform profile) ∧
      ¬ t.locate (buildPath root p platform profile) <+: t.locate (Path.join root dir)

/-- Nothing stands at the place, which is passed on the way to a build directory. -/
def Missing (t : FileTree) (root : String) (p : Project) (platform : Platform)
    (loc : Location) : Prop :=
  t.at? loc = none ∧ ∃ profile ∈ platform.profiles,
    t.OnWay (components (buildPath root p platform profile)) loc

/-- The generator does not see what is missing on the way to a build directory: that is not below
the directory of headers and is not the directory of fuzz cases, nor does the path of one that is
there go up from it. -/
structure Settled (t : FileTree) (root : String) (p : Project) (platform : Platform) : Prop where
  headers : ∀ loc, Missing t root p platform loc → ¬ t.locate (Path.join root p.includes.dir) <+: loc
  fuzz : ∀ dir, p.tests.fuzz = some dir →
    ¬ Missing t root p platform (t.locate (Path.join root dir))
  up : ∀ dir, p.tests.fuzz = some dir → t.at? (t.locate (Path.join root dir)) = some .directory →
    ∀ front, front ++ [.parent] <+: components (Path.join root dir) →
      ¬ Missing t root p platform (front.foldl landing t.cwd)

instance : Decidable (BuildsApart t root p platform) :=
  inferInstanceAs (Decidable (∀ profile ∈ platform.profiles, ∀ dir ∈ p.listedDirectories, _ ∧ _))

/-- Where no path goes up, it is enough that the build directories are apart. -/
theorem settled_of_not_up (hapart : BuildsApart t root p platform)
    (hout : ∀ profile ∈ platform.profiles,
      .parent ∉ components (buildPath root p platform profile))
    (hfuzz : ∀ dir, p.tests.fuzz = some dir → .parent ∉ components (Path.join root dir)) :
    Settled t root p platform := by
  have habove : ∀ loc, Missing t root p platform loc → ∀ dir ∈ p.listedDirectories,
      ¬ t.locate (Path.join root dir) <+: loc := by
    rintro loc ⟨-, profile, hprofile, hway⟩ dir hdir hbelow
    exact (hapart profile hprofile dir hdir).1 (hbelow.trans (hway.above (hout profile hprofile)))
  refine ⟨fun loc hmissing => habove loc hmissing _ List.mem_cons_self, ?_, ?_⟩
  · intro dir hdir hmissing
    exact habove _ hmissing dir (by simp [Project.listedDirectories, hdir]) (List.prefix_refl _)
  · intro dir hdir _ front hfront
    exact absurd (hfront.subset (List.mem_append_right _ List.mem_cons_self)) (hfuzz dir hdir)

theorem missing_of_leads (ht : t.WellNamed) (hp : loadProject read t root = .ok p)
    (hplan : plan read t root tools platform = .ok files) {loc : Location} (hnone : t.at? loc = none)
    (h : Leads t files loc) : Missing t root p platform loc := by
  obtain ⟨f, hf, hway⟩ := h
  obtain ⟨profile, hprofile, name, hname, hpath⟩ := exists_place ht hp hplan hf
  rw [hpath, Path.components_join_name hname.isName, List.dropLast_concat] at hway
  exact ⟨hnone, profile, hprofile, hway⟩

theorem exists_of_holds (ht : t.WellNamed) (hp : loadProject read t root = .ok p)
    (hplan : plan read t root tools platform = .ok files) {loc : Location} (h : Holds t files loc) :
    ∃ profile ∈ platform.profiles, ∃ name, PlannedName name ∧
      loc = t.locate (buildPath root p platform profile) ++ [name] := by
  obtain ⟨f, hf, rfl⟩ := h
  obtain ⟨profile, hprofile, name, hname, hpath⟩ := exists_place ht hp hplan hf
  exact ⟨profile, hprofile, name, hname, by rw [hpath, FileTree.locate_join t _ hname.isName]⟩

theorem not_holds_listed (ht : t.WellNamed) (hp : loadProject read t root = .ok p)
    (hplan : plan read t root tools platform = .ok files) (hapart : BuildsApart t root p platform)
    {dir : String} (hdir : dir ∈ p.listedDirectories) {loc : Location}
    (hloc : t.locate (Path.join root dir) <+: loc) : ¬ Holds t files loc := by
  intro hholds
  obtain ⟨profile, hprofile, name, -, rfl⟩ := exists_of_holds ht hp hplan hholds
  obtain ⟨hbelow, habove⟩ := hapart profile hprofile dir hdir
  rcases List.prefix_concat_iff.mp hloc with hsame | hloc
  · exact habove (hsame ▸ List.prefix_append _ _)
  · exact hbelow hloc

theorem not_holds_projectFile (ht : t.WellNamed) (hp : loadProject read t root = .ok p)
    (hplan : plan read t root tools platform = .ok files) :
    ¬ Holds t files (t.locate (Path.join root Project.projectFile)) := by
  intro hholds
  obtain ⟨profile, -, name, hname, hplace⟩ := exists_of_holds ht hp hplan hholds
  have hfile : IsName Project.projectFile := by decide
  rw [FileTree.locate_join t _ hfile] at hplace
  obtain rfl := (List.cons.inj (List.append_inj' hplace rfl).2).1
  rcases hname.last with hlast | hlast <;> exact absurd hlast (by decide)

theorem not_holds_test (ht : t.WellNamed) (hp : loadProject read t root = .ok p)
    (hplan : plan read t root tools platform = .ok files) (hapart : BuildsApart t root p platform)
    {name : String} (hname : IsName name) :
    ¬ Holds t files (t.locate (Path.join root (p.tests.dir ++ "/" ++ name))) := by
  intro hholds
  obtain ⟨profile, hprofile, name', -, hplace⟩ := exists_of_holds ht hp hplan hholds
  rw [Path.join_below _ _ hname, FileTree.locate_join t _ hname] at hplace
  have hdirectory := (List.append_inj' hplace rfl).1
  by_cases hdir : p.tests.dir = ""
  · -- the test files would stand at the root, and a build directory does not
    have hroot : t.locate (Path.join root ("" ++ "/")) = [] := by
      rw [Path.join_of_absolute (by decide), FileTree.locate_eq]
      rw [show components ("" ++ "/") = [.root] by decide]
      rfl
    rw [hdir, hroot, locate_buildPath] at hdirectory
    exact absurd hdirectory.symm (by simp)
  · have hsame : t.locate (Path.join root (p.tests.dir ++ "/")) =
        t.locate (Path.join root p.tests.dir) := by
      rw [FileTree.locate_eq, FileTree.locate_eq,
        Path.components_join_congr (Path.components_append_slash hdir)]
    have htests : p.tests.dir ∈ p.listedDirectories := by simp [Project.listedDirectories]
    rw [hsame] at hdirectory
    exact (hapart profile hprofile _ htests).1 (hdirectory ▸ List.prefix_refl _)

/-! ## What the second generation reads -/

theorem exists_read_projectFile (hp : loadProject read t root = .ok p) :
    ∃ data, t.read (Path.join root Project.projectFile) = .ok data := by
  unfold loadProject Project.load at hp
  simp only [bind_eq_ok_iff, mapError_eq_ok_iff] at hp
  obtain ⟨p', hload, -⟩ := hp
  split at hload
  · cases hload
  · rename_i source hsource
    exact FileTree.exists_read_of_readText hsource

theorem loadProject_grows (ht : t.WellNamed) (hp : loadProject read t root = .ok p)
    (hplan : plan read t root tools platform = .ok files) {dirs : Location → Prop}
    (hg : Grows dirs (Holds t files) t t') : loadProject read t' root = .ok p := by
  obtain ⟨data, hread⟩ := exists_read_projectFile hp
  exact loadProject_alike hg.cwd.symm
    (hg.sight_of_read hread (not_holds_projectFile ht hp hplan)) hp

theorem checkRequired_grows {dirs written : Location → Prop} (hg : Grows dirs written t t')
    (h : Inputs.checkRequired t root p tools = .ok ()) :
    Inputs.checkRequired t' root p tools = .ok () := by
  unfold Inputs.checkRequired at h ⊢
  cases hpaths : Inputs.required p tools with
  | error e =>
    rw [hpaths] at h
    cases h
  | ok paths =>
    simp only [hpaths] at h ⊢
    have hnone : (paths.map (Path.join root ·)).find? (!t.pathExists ·) = none := by
      split at h
      · cases h
      · assumption
    have hnone' : (paths.map (Path.join root ·)).find? (!t'.pathExists ·) = none := by
      rw [List.find?_eq_none] at hnone ⊢
      intro path hpath
      have hthere : t.pathExists path = true := by simpa using hnone path hpath
      simp [hg.pathExists hthere]
    rw [hnone']

/-- How the first generation changes the tree, and what it leaves alone. -/
structure Aftermath (t t' : FileTree) (root : String) (p : Project) (platform : Platform)
    (files : List GeneratedFile) : Prop where
  grows : Grows (Missing t root p platform) (Holds t files) t t'
  rooted : t.Rooted
  settled : Settled t root p platform
  listed : ∀ dir ∈ p.listedDirectories, ∀ loc, t.locate (Path.join root dir) <+: loc →
    ¬ Holds t files loc
  tests : ∀ name, IsName name →
    ¬ Holds t files (t.locate (Path.join root (p.tests.dir ++ "/" ++ name)))

namespace Aftermath

variable (h : Aftermath t t' root p platform files)
include h

theorem filesIn {dir : String} {fits : String → Bool} {paths : List String}
    (hdir : dir ∈ p.listedDirectories)
    (hpaths : Project.Tests.filesIn t root dir fits = .ok paths) :
    Project.Tests.filesIn t' root dir fits = .ok paths := by
  refine Project.Tests.filesIn_mono (fun names hnames => ?_) hpaths
  exact h.grows.fileNames (h.listed dir hdir _ (List.prefix_refl _))
    (fun name => h.listed dir hdir _ (List.prefix_append _ _)) hnames

theorem sight_test (ht : t.WellNamed) {fits : String → Bool} {paths : List String}
    (hpaths : Project.Tests.filesIn t root p.tests.dir fits = .ok paths) {path text : String}
    (hpath : path ∈ paths) (hread : t.readText (Path.join root path) = .ok text) :
    t.sight (Path.join root path) = t'.sight (Path.join root path) := by
  obtain ⟨name, hname, rfl⟩ := Project.Tests.exists_of_mem_filesIn ht hpaths hpath
  obtain ⟨data, hread⟩ := FileTree.exists_read_of_readText hread
  exact h.grows.sight_of_read hread (h.tests name hname)

theorem enabledFixtures (ht : t.WellNamed) {fixtures : List TestCase}
    (hfixtures : p.tests.enabledFixtures t root = .ok fixtures) :
    p.tests.enabledFixtures t' root = .ok fixtures := by
  obtain ⟨pattern, paths, ds, hpattern, hpaths, hds, henabled⟩ :=
    Project.Tests.enabledFixtures_eq_ok_iff.mp hfixtures
  have htests : p.tests.dir ∈ p.listedDirectories := by simp [Project.listedDirectories]
  refine Project.Tests.enabledFixtures_eq_ok_iff.mpr ⟨pattern, paths, ds, hpattern,
    h.filesIn htests hpaths, ?_, henabled⟩
  refine forall₂_imp_of_mem hds fun path hpath d hd => ?_
  refine Project.Tests.defineFixture_alike h.grows.cwd.symm ?_ hd
  unfold Project.Tests.defineFixture at hd
  dsimp only at hd
  split at hd
  · cases hd
  · rename_i text htext
    exact h.sight_test ht hpaths (List.mem_filter.mp hpath).1 htext

theorem scenariosOf (ht : t.WellNamed) {cs : List Scenario.Compiled}
    (hcs : Inputs.scenariosOf t root p = .ok cs) : Inputs.scenariosOf t' root p = .ok cs := by
  obtain ⟨scripts, hscripts, hcompiled⟩ := Inputs.scenariosOf_eq_ok_iff.mp hcs
  have htests : p.tests.dir ∈ p.listedDirectories := by simp [Project.listedDirectories]
  obtain ⟨fits, hpaths⟩ := Project.Tests.exists_filesIn_of_scenarioScripts hscripts
  refine Inputs.scenariosOf_eq_ok_iff.mpr ⟨scripts,
    Project.Tests.scenarioScripts_mono (fun _ => h.filesIn htests) hscripts, ?_⟩
  refine forall₂_imp_of_mem hcompiled fun script hscript c hc => ?_
  refine Inputs.scenarioOf_alike h.grows.cwd.symm ?_ hc
  unfold Inputs.scenarioOf Scenario.Compiled.ofScript at hc
  cases htext : t.readText (Path.join root script) with
  | error e =>
    rw [htext] at hc
    cases hc
  | ok text => exact h.sight_test ht hpaths hscript htext

theorem isDirectory_fuzz {dir : String} (hfuzz : p.tests.fuzz = some dir) :
    t'.isDirectory (Path.join root dir) = t.isDirectory (Path.join root dir) := by
  rw [Bool.eq_iff_iff, FileTree.isDirectory_eq_true_iff, FileTree.isDirectory_eq_true_iff]
  constructor
  · rintro ⟨loc, hlookup⟩
    obtain ⟨hcheck, hreached, hat, hask⟩ := FileTree.lookup_eq_ok_iff.mp hlookup
    obtain rfl := FileTree.locate_of_reached hreached
    rw [h.grows.locate] at hat hreached
    -- the directory itself was there; what may have been missing is the way to it
    have hat : t.at? (t.locate (Path.join root dir)) = some .directory := by
      rcases h.grows.at?_cases (t.locate (Path.join root dir)) with
        hsame | ⟨hmade, -⟩ | ⟨-, -, data, hfile⟩
      · rw [← hsame, hat]
      · exact absurd hmade (h.settled.fuzz dir hfuzz)
      · rw [hat] at hfile
        cases hfile
    have hback := h.grows.reached_back h.rooted (h.settled.up dir hfuzz hat) hreached
      (by rw [hat]; rfl)
    exact ⟨_, FileTree.lookup_eq_ok_iff.mpr ⟨hcheck, hback, hat, hask⟩⟩
  · rintro ⟨loc, hlookup⟩
    obtain ⟨hcheck, hreached, hat, hask⟩ := FileTree.lookup_eq_ok_iff.mp hlookup
    exact ⟨loc, FileTree.lookup_eq_ok_iff.mpr
      ⟨hcheck, h.grows.reached hreached, h.grows.at?_directory hat, hask⟩⟩

theorem fuzzInputs {cases : List TestCase} (hcases : p.tests.fuzzInputs t root = .ok cases) :
    p.tests.fuzzInputs t' root = .ok cases := by
  refine Project.Tests.fuzzInputs_mono (fun dir => h.isDirectory_fuzz) ?_ hcases
  intro dir paths hfuzz _ hpaths
  exact h.filesIn (by simp [Project.listedDirectories, hfuzz]) hpaths

theorem collect (ht : t.WellNamed) (hinputs : Inputs.collect t root p platform = .ok inputs) :
    Inputs.collect t' root p platform = .ok inputs := by
  obtain ⟨includes, hincludes, hfixtures, hfuzz, hscenarios, hheaders, hwatched⟩ :=
    Inputs.collect_eq_ok_iff.mp hinputs
  obtain ⟨items, hwalk, hlisted⟩ := Inputs.walkIncludes_eq_ok_iff.mp hincludes
  have hspared : Spared (Missing t root p platform) (Holds t files)
      (t.locate (Path.join root p.includes.dir)) := fun loc hloc =>
    ⟨fun hmissing => h.settled.headers loc hmissing hloc, h.listed _ List.mem_cons_self loc hloc⟩
  have hwalk' := h.grows.walk_spared hwalk hspared
  have hfuzz' : Inputs.fuzzCasesFor t' root p platform = .ok inputs.fuzzCases := by
    unfold Inputs.fuzzCasesFor at hfuzz ⊢
    split_ifs at hfuzz ⊢
    · exact h.fuzzInputs hfuzz
    · exact hfuzz
  have hwatched' : Inputs.watched t' root p includes.2 = Inputs.watched t root p includes.2 := by
    have hsame : ∀ dir ∈ p.tests.fuzz.toList,
        t'.isDirectory (Path.join root dir) = t.isDirectory (Path.join root dir) :=
      fun dir hdir => h.isDirectory_fuzz (Option.mem_toList.mp hdir)
    rw [Inputs.watched, Inputs.watched, List.filter_congr hsame]
  exact Inputs.collect_eq_ok_iff.mpr ⟨includes,
    Inputs.walkIncludes_eq_ok_iff.mpr ⟨items, hwalk', hlisted⟩, h.enabledFixtures ht hfixtures,
    hfuzz', h.scenariosOf ht hscenarios, hheaders, hwatched.trans hwatched'.symm⟩

end Aftermath

theorem writePlan_of_read {r : GenerationReport}
    (h : ∀ f ∈ files, t.read f.path = .ok (Text.toUtf8 f.contents)) :
    writePlan t r files = (t, .ok { r with unchanged := r.unchanged ++ files.map (·.path) }) := by
  induction files generalizing r with
  | nil => simp [writePlan]
  | cons file files ih =>
    obtain ⟨hfirst, hrest⟩ := List.forall_mem_cons.mp h
    rw [writePlan, FileTree.update_of_read hfirst]
    simp only
    rw [ih hrest]
    simp [report]

/-- A generation that has written nothing has found everything as it should be. -/
theorem writePlan_written {r r' : GenerationReport} (h : writePlan t r files = (t', .ok r')) :
    ∃ added, r'.written = r.written ++ added ∧
      (added = [] → ∀ f ∈ files, t.read f.path = .ok (Text.toUtf8 f.contents)) := by
  induction files generalizing t r with
  | nil =>
    obtain rfl := Except.ok.inj (Prod.mk.inj h).2
    exact ⟨[], by simp, by simp⟩
  | cons file files ih =>
    rw [writePlan] at h
    split at h
    · cases (Prod.mk.inj h).2
    · rename_i t₁ effect hupdate
      obtain ⟨-, hread, hsame⟩ := FileTree.update_ok hupdate
      obtain ⟨added, hadded, hall⟩ := ih h
      cases effect with
      | written => exact ⟨file.path :: added, by simpa [report] using hadded, by simp⟩
      | unchanged =>
        obtain rfl := hsame rfl
        exact ⟨added, hadded, fun hnil => List.forall_mem_cons.mpr ⟨hread, hall hnil⟩⟩

/-- **A generation that succeeds is repeated without effect**: the planned files, each with a path of
its own, are there and all others are as before, and a second one finds everything as it should be. -/
theorem run_twice {r : GenerationReport} (ht : t.WellNamed) (hrooted : t.Rooted)
    (hp : loadProject read t root = .ok p) (hapart : BuildsApart t root p platform)
    (hsettled : Settled t root p platform)
    (h : run read t root tools platform = (t', .ok r)) :
    ∃ files, plan read t root tools platform = .ok files ∧
      (files.map (·.path)).Nodup ∧
      (∀ f ∈ files, t'.read f.path = .ok (Text.toUtf8 f.contents)) ∧
      (∀ loc data executable, (∀ f ∈ files, loc ≠ t.locate f.path) →
        (t'.at? loc = some (.file data executable) ↔ t.at? loc = some (.file data executable))) ∧
      run read t' root tools platform = (t', .ok ⟨[], files.map (·.path)⟩) := by
  unfold run at h
  split at h
  · cases (Prod.mk.inj h).2
  rename_i files hplan
  have hplaces := nodup_places ht hplan
  obtain ⟨hgrows, hreads⟩ := writePlan_ok h hplaces
  have hafter : Aftermath t t' root p platform files :=
    { grows := hgrows.absent.mono (fun loc h => missing_of_leads ht hp hplan h.2 h.1) fun _ h => h
      rooted := hrooted
      settled := hsettled
      listed := fun dir hdir loc => not_holds_listed ht hp hplan hapart hdir
      tests := fun name hname => not_holds_test ht hp hplan hapart hname }
  refine ⟨files, hplan, ?_, hreads, ?_, ?_⟩
  · have hmap : files.map (fun f => t.locate f.path) = (files.map (·.path)).map t.locate := by simp
    rw [hmap] at hplaces
    exact hplaces.of_map
  · intro loc data executable hloc
    rcases hgrows.at?_cases loc with hsame | ⟨-, hnone, hdir⟩ | ⟨⟨f, hf, rfl⟩, -⟩
    · rw [hsame]
    · simp [hnone, hdir]
    · exact absurd rfl (hloc f hf)
  · obtain ⟨p', inputs, parts, hp', hrequired, hinputs, hparts, hflatten⟩ :=
      plan_eq_ok_iff.mp hplan
    obtain rfl := Except.ok.inj (hp.symm.trans hp')
    -- all that the plan was made from is as it was, so the same files are planned again
    have hplan' : plan read t' root tools platform = .ok files :=
      plan_eq_ok_iff.mpr ⟨p, inputs, parts, loadProject_grows ht hp hplan hgrows,
        checkRequired_grows hgrows hrequired, hafter.collect ht hinputs, hparts, hflatten⟩
    rw [run_of_plan hplan', writePlan_of_read hreads]
    rfl

/-! ## Generations that are not repeated -/

/-- A generation succeeds with build directories that are new and apart from those that are listed,
and the next one does not find everything as it should be. -/
def Restless (read : Project.Reader) (t : FileTree) (root : String) (tools : ToolPaths)
    (platform : Platform) : Prop :=
  t.WellNamed ∧ t.Rooted ∧ ∃ p t' r, loadProject read t root = .ok p ∧
    BuildsApart t root p platform ∧
    (∀ profile ∈ platform.profiles, t.at? (t.locate (buildPath root p platform profile)) = none) ∧
    run read t root tools platform = (t', .ok r) ∧
    ∀ unchanged, (run read t' root tools platform).2 ≠ .ok ⟨[], unchanged⟩

theorem restless_of_plans {files' : List GeneratedFile} {r : GenerationReport} (ht : t.WellNamed)
    (hrooted : t.Rooted) (hp : loadProject read t root = .ok p)
    (hapart : BuildsApart t root p platform)
    (hnew : ∀ profile ∈ platform.profiles,
      t.at? (t.locate (buildPath root p platform profile)) = none)
    (hrequired : Inputs.checkRequired t root p tools = .ok ())
    (hplan : plan read t root tools platform = .ok files) (hrun : (writePlan t {} files).2 = .ok r)
    (hplan' : loadProject read (writePlan t {} files).1 root = .ok p →
      Inputs.checkRequired (writePlan t {} files).1 root p tools = .ok () →
      plan read (writePlan t {} files).1 root tools platform = .ok files')
    {f f' : GeneratedFile} (hf : f ∈ files) (hf' : f' ∈ files') (hpath : f.path = f'.path)
    (hcontents : f.contents ≠ f'.contents) : Restless read t root tools platform := by
  have hwrite : writePlan t {} files = ((writePlan t {} files).1, .ok r) := Prod.ext rfl hrun
  obtain ⟨hgrows, hreads⟩ := writePlan_ok hwrite (nodup_places ht hplan)
  refine ⟨ht, hrooted, p, _, r, hp, hapart, hnew, (run_of_plan hplan).trans hwrite, ?_⟩
  intro unchanged hagain
  rw [run_of_plan (hplan' (loadProject_grows ht hp hplan hgrows)
    (checkRequired_grows hgrows hrequired))] at hagain
  obtain ⟨added, hadded, hall⟩ := writePlan_written (Prod.ext rfl hagain)
  have hread := hreads f hf
  rw [hpath, hall (by simpa using hadded.symm) f' hf'] at hread
  exact hcontents (Text.toUtf8_injective (Except.ok.inj hread)).symm

end

namespace Sample

open Ninja (Edge Manifest)

/-! ### The sample elsewhere -/

/-- The sample with another path for build directories and another one for fuzz cases. -/
def movedSource (out fuzz : String) : String :=
  "project name=\"cc\" src=\"src\" out=\"" ++ out ++ "\"
codegen input=\"gen.in\" output=\"gen\" tool=\"tool.c\" script=\"gen.lua\"
includes dir=\"include\" output=\"headers.h\"
amalg dir=\"lib\" name=\"cc\" header=\"cc.h\" license=\"LICENSE\" switch=\"WIN\"
tests dir=\"test\" support=\"src/support.c\" fuzz=\"" ++ fuzz ++ "\"
source path=\"main.c\"
"

def moved (out fuzz : String) : Project :=
  { project with
    general := { project.general with out := out }
    tests := { project.tests with fuzz := some fuzz } }

def movedTree (out fuzz : String) (more : List (Location × Item)) : FileTree :=
  tree (Text.toUtf8 (movedSource out fuzz)) (Text.toUtf8 "// DISABLED") .directory more

theorem append_ofList {a b c d e : String} {as bs cs ds es : List Char} (ha : a = String.ofList as)
    (hb : b = String.ofList bs) (hc : c = String.ofList cs) (hd : d = String.ofList ds)
    (he : e = String.ofList es) :
    a ++ b ++ c ++ d ++ e = String.ofList (as ++ bs ++ cs ++ ds ++ es) := by
  rw [ha, hb, hc, hd, he]
  simp only [String.ofList_append]

variable {out fuzz : String} {more : List (Location × Item)} {dirs : List String}

theorem loadProject_movedTree (hparse : Project.parse? (movedSource out fuzz) = some (moved out fuzz))
    (hcheck : (moved out fuzz).check = .ok ()) :
    loadProject Project.parse? (movedTree out fuzz more) "p" = .ok (moved out fuzz) := by
  have hsource : (movedTree out fuzz more).readText (Path.join "p" Project.projectFile) =
      .ok (movedSource out fuzz) := by
    rw [projectFile_path]
    exact readText_manifest .directory more (movedSource out fuzz) (Text.toUtf8 "// DISABLED")
  exact loadProject_eq_ok hsource hparse hcheck

def movedGraph (out fuzz : String) (dirs : List String) (profile : Profile) : Graph.Input :=
  inputFor (moved out fuzz) tools (inputs dirs []) (toolchain profile)

theorem edges_movedGraph {profile : Profile} (hprofile : profile.fuzzes = false) :
    (movedGraph out fuzz dirs profile).edges = (edges dirs []).map .ok := by
  rw [← edges_graph hprofile]
  cases profile with
  | fuzz => cases hprofile
  | _ => rfl

def movedFile (out fuzz : String) (dirs : List String) (profile : Profile) : GeneratedFile :=
  manifestFileOf (movedGraph out fuzz dirs profile)
    ((movedGraph out fuzz dirs profile).manifestOf (edges dirs []))

def movedFiles (out fuzz : String) (dirs : List String) : List GeneratedFile :=
  [Profile.debug, .release, .asan].map (movedFile out fuzz dirs)

theorem plan_moved {t : FileTree} (hp : loadProject Project.parse? t "p" = .ok (moved out fuzz))
    (hrequired : Inputs.checkRequired t "p" (moved out fuzz) tools = .ok ())
    (hinputs : Inputs.collect t "p" (moved out fuzz) .windows = .ok (inputs dirs []))
    (h : Buildable (edges dirs [])) :
    plan Project.parse? t "p" tools .windows = .ok (movedFiles out fuzz dirs) :=
  plan_of_manifests hp hrequired hinputs rfl fun _ hfuzzes =>
    manifest_of_edges h (edges_movedGraph hfuzzes) compiler_name

theorem contents_movedFile_ne {dirs' : List String}
    (h : closingText dirs [] ≠ closingText dirs' []) :
    (movedFile out fuzz dirs .debug).contents ≠ (movedFile out fuzz dirs' .debug).contents := by
  intro hrender
  have hmanifest : ∀ dirs, (movedGraph out fuzz dirs .debug).manifestOf (edges dirs []) =
      { (movedGraph out fuzz [] .debug).manifestOf [] with
        edges := opening ++ (graph dirs [] .debug).closingEdges } := fun _ => rfl
  rw [movedFile, movedFile, manifestFileOf, manifestFileOf, hmanifest dirs, hmanifest dirs']
    at hrender
  exact h (Manifest.lines_of_render hrender)

/-- What the first generation of the sample elsewhere plans. -/
abbrev firstFiles (out fuzz : String) : List GeneratedFile := movedFiles out fuzz ["test", "include"]

theorem restless_moved (dirs : List String)
    (hparse : Project.parse? (movedSource out fuzz) = some (moved out fuzz))
    (hcheck : (moved out fuzz).check = .ok ()) (ht : (movedTree out fuzz more).WellNamed)
    (hrooted : (movedTree out fuzz more).Rooted)
    (hapart : BuildsApart (movedTree out fuzz more) "p" (moved out fuzz) .windows)
    (hnew : ∀ profile ∈ Platform.windows.profiles, (movedTree out fuzz more).at?
      ((movedTree out fuzz more).locate (buildPath "p" (moved out fuzz) .windows profile)) = none)
    (hrequired : Inputs.checkRequired (movedTree out fuzz more) "p" (moved out fuzz) tools = .ok ())
    (hinputs : Inputs.collect (movedTree out fuzz more) "p" (moved out fuzz) .windows =
      .ok (inputs ["test", "include"] []))
    (hbuildable : Buildable (edges ["test", "include"] []))
    (hrun : (writePlan (movedTree out fuzz more) {} (firstFiles out fuzz)).2 =
      .ok ⟨(firstFiles out fuzz).map (·.path), []⟩)
    (hinputs' : Inputs.collect (writePlan (movedTree out fuzz more) {} (firstFiles out fuzz)).1 "p"
      (moved out fuzz) .windows = .ok (inputs dirs []))
    (hbuildable' : Buildable (edges dirs []))
    (htext : closingText ["test", "include"] [] ≠ closingText dirs []) :
    Restless Project.parse? (movedTree out fuzz more) "p" tools .windows := by
  have hp : loadProject Project.parse? (movedTree out fuzz more) "p" = .ok (moved out fuzz) :=
    loadProject_movedTree hparse hcheck
  exact restless_of_plans ht hrooted hp hapart hnew hrequired
    (plan_moved hp hrequired hinputs hbuildable) hrun
    (fun hp' hrequired' => plan_moved hp' hrequired' hinputs' hbuildable')
    List.mem_cons_self List.mem_cons_self rfl (contents_movedFile_ne htext)

set_option maxRecDepth 4000 in
theorem parse?_movedSource :
    Project.parse? (movedSource "a/b" "a/../seeds") = some (moved "a/b" "a/../seeds") ∧
      Project.parse? (movedSource "include/new/../../o" "fuzz") =
        some (moved "include/new/../../o" "fuzz") ∧
      Project.parse? (movedSource "fuzz/../o" "fuzz") = some (moved "fuzz/../o" "fuzz") := by
  refine ⟨?_, ?_, ?_⟩
  · exact (congrArg Project.parse? (append_ofList rfl rfl rfl rfl rfl)).trans
      ((parse?_ofList _).trans (by decide +kernel))
  · exact (congrArg Project.parse? (append_ofList rfl rfl rfl rfl rfl)).trans
      ((parse?_ofList _).trans (by decide +kernel))
  · exact (congrArg Project.parse? (append_ofList rfl rfl rfl rfl rfl)).trans
      ((parse?_ofList _).trans (by decide +kernel))

/-- **Generations that are not repeated**: a directory made on the way to the build directories opens
the way to fuzz cases that are there, or is one of headers, or the one of fuzz cases. -/
theorem restless_samples :
    Restless Project.parse? (movedTree "a/b" "a/../seeds" [(["p", "seeds"], .directory)]) "p" tools
        .windows ∧
      Restless Project.parse? (movedTree "include/new/../../o" "fuzz" []) "p" tools .windows ∧
      Restless Project.parse? (movedTree "fuzz/../o" "fuzz" []) "p" tools .windows := by
  obtain ⟨hup, hheaders, hfuzz⟩ := parse?_movedSource
  have hbuildable : Buildable (edges ["test", "include"] []) := by decide +kernel
  refine ⟨?_, ?_, ?_⟩
  · refine restless_moved ["test", "a/../seeds", "include"]
      hup ?_ ?_ ?_ ?_ ?_ ?_ ?_ hbuildable ?_ ?_ ?_ ?_
    all_goals decide +kernel
  · refine restless_moved ["test", "include", "include/new"]
      hheaders ?_ ?_ ?_ ?_ ?_ ?_ ?_ hbuildable ?_ ?_ ?_ ?_
    all_goals decide +kernel
  · refine restless_moved ["test", "fuzz", "include"]
      hfuzz ?_ ?_ ?_ ?_ ?_ ?_ ?_ hbuildable ?_ ?_ ?_ ?_
    all_goals decide +kernel

theorem settled_original : Settled original "p" project .windows := by
  refine settled_of_not_up (by decide +kernel) (by decide +kernel) ?_
  intro dir hdir
  obtain rfl := Option.some.inj hdir
  decide +kernel

theorem run_twice_original :
    ∃ t', run Project.parse? original "p" tools .windows = (t', .ok ⟨["p/out/wd/build.ninja",
        "p/out/wr/build.ninja", "p/out/wa/build.ninja"], []⟩) ∧
      run Project.parse? t' "p" tools .windows = (t', .ok ⟨[], ["p/out/wd/build.ninja",
        "p/out/wr/build.ninja", "p/out/wa/build.ninja"]⟩) := by
  have hrooted : original.Rooted := by decide +kernel
  have hapart : BuildsApart original "p" project .windows := by decide +kernel
  have hreport : (run Project.parse? original "p" tools .windows).2 = .ok ⟨["p/out/wd/build.ninja",
      "p/out/wr/build.ninja", "p/out/wa/build.ninja"], []⟩ := by
    rw [run_of_plan plan_original]
    decide +kernel
  have hrun := eq_of_snd hreport
  obtain ⟨files, hplan, -, -, -, hagain⟩ := run_twice original_wellNamed hrooted
    (loadProject_treeOf _ _ _) hapart settled_original hrun
  obtain rfl := Except.ok.inj (plan_original.symm.trans hplan)
  exact ⟨_, hrun, hagain⟩

end Sample

end Generation

end BuildPlan
