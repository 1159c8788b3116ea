import BuildPlan.Proofs.Enumeration
import BuildPlan.Proofs.Inputs

/-!
# The tests that are found

Scenarios, fuzz cases and fixtures are the files of a directory whose names fit, each once and in
the order of the names' bytes, and none depends on the order in which the tree has its items. A
fixture counts once its file is read: the first file that cannot be read or says nothing sensible
ends the search, also where it is disabled (`discovery_exact`).
-/

namespace BuildPlan

/-! ## Names that fit -/

namespace NamePattern

/-- The name is the pattern, with any characters in place of its `*`. -/
def Matches (p : NamePattern) (name : String) : Prop :=
  match p.ending with
  | none => name.toList = p.start
  | some ending => ∃ middle, name.toList = p.start ++ middle ++ ending

theorem fits_iff (p : NamePattern) (name : String) : p.fits name = true ↔ p.Matches name := by
  rw [fits, Matches]
  cases p.ending with
  | none => exact beq_iff_eq
  | some ending =>
    rw [Bool.and_eq_true, Bool.and_eq_true, decide_eq_true_iff, List.isPrefixOf_iff_prefix,
      List.isSuffixOf_iff_suffix]
    constructor
    · rintro ⟨⟨hlength, rest, hrest⟩, front, hfront⟩
      -- start and ending do not overlap, so the ending lies in what follows the start
      have hends : ending <:+ rest := by
        refine List.suffix_of_suffix_length_le ⟨front, hfront⟩ ⟨p.start, hrest⟩ ?_
        rw [← hrest, List.length_append] at hlength
        exact Nat.le_of_add_le_add_left hlength
      obtain ⟨middle, rfl⟩ := hends
      exact ⟨middle, by rw [← hrest, List.append_assoc]⟩
    · rintro ⟨middle, hname⟩
      rw [hname]
      refine ⟨⟨?_, ⟨middle ++ ending, (List.append_assoc ..).symm⟩⟩, ⟨_, rfl⟩⟩
      simp only [List.length_append]
      omega

end NamePattern

/-! ## The files of a directory -/

namespace FileTree

variable {t : FileTree}

/-- A file with the name stands directly in the directory at a path. -/
def HoldsFile (t : FileTree) (path name : String) : Prop :=
  ∃ loc, t.lookup path = .ok (loc, .directory) ∧
    ∃ data executable, t.at? (loc ++ [name]) = some (.file data executable)

theorem hasFile_iff {loc : Location} :
    t.hasFile loc = true ↔ ∃ data executable, t.at? loc = some (.file data executable) := by
  rw [hasFile]
  split
  · rename_i data executable hat
    exact iff_of_true rfl ⟨data, executable, hat⟩
  · rename_i hno
    refine iff_of_false Bool.false_ne_true ?_
    rintro ⟨data, executable, hat⟩
    exact hno data executable hat

theorem fileNames_exact (ht : t.Distinct) {path : String} {found : Location × Item}
    (h : t.lookup path = .ok found) :
    ∃ names, t.fileNames path = .ok names ∧
      Enumerates Text.Bytewise names (t.HoldsFile path) := by
  obtain ⟨loc, item⟩ := found
  have hholds {name : String} (hname : t.HoldsFile path name) : item = .directory ∧
      t.hasFile (loc ++ [name]) = true := by
    obtain ⟨loc', hlookup, hfile⟩ := hname
    rw [h] at hlookup
    obtain ⟨rfl, rfl⟩ := Prod.mk.inj (Except.ok.inj hlookup)
    exact ⟨rfl, hasFile_iff.mpr hfile⟩
  cases item with
  | file data executable =>
    refine ⟨[], by rw [fileNames, h], List.Pairwise.nil, fun name => ?_⟩
    refine iff_of_false List.not_mem_nil fun hname => ?_
    cases (hholds hname).1
  | directory =>
    obtain ⟨hascending, hmem⟩ := (enumerates_children ht loc).filter
      fun name => t.hasFile (loc ++ [name])
    refine ⟨_, fileNames_of_directory h, hascending, fun name => (hmem name).trans ⟨?_, ?_⟩⟩
    · rintro ⟨-, hfile⟩
      exact ⟨loc, h, hasFile_iff.mp hfile⟩
    · intro hname
      obtain ⟨data, executable, hat⟩ := hasFile_iff.mp (hholds hname).2
      exact ⟨by rw [hat]; rfl, (hholds hname).2⟩

end FileTree

namespace Project.Tests

open FileTree (HoldsFile Rearranged)

variable {tests : Tests} {t t' : FileTree} {root dir path : String}

/-- The names are those of the files in a directory of the project that pass a test. -/
def FilesAre (t : FileTree) (root dir : String) (fits : String → Prop) (names : List String) :
    Prop :=
  Enumerates Text.Bytewise names fun name => t.HoldsFile (Path.join root dir) name ∧ fits name

theorem filesIn_of_error {e : FileError} (fits : String → Bool)
    (h : t.lookup (Path.join root dir) = .error e) :
    filesIn t root dir fits = .error (.unlisted (Path.join root dir) e) := by
  unfold filesIn FileTree.fileNames
  dsimp only
  rw [h]

theorem filesIn_of_ok (ht : t.Distinct) {found : Location × BuildPlan.Item} (fits : String → Bool)
    (h : t.lookup (Path.join root dir) = .ok found) :
    ∃ names, FilesAre t root dir (fits · = true) names ∧
      filesIn t root dir fits = .ok (names.map (dir ++ "/" ++ ·)) := by
  obtain ⟨names, hnames, hfiles⟩ := FileTree.fileNames_exact ht h
  refine ⟨names.filter fits, hfiles.filter fits, ?_⟩
  unfold filesIn
  dsimp only
  rw [hnames]

/-! ## Scenarios -/

structure ScenariosFound (tests : Tests) (t : FileTree) (root : String)
    (result : Except TestFilesError (List String)) : Prop where
  flawed : ∀ e, tests.scenarioNames = .error e → result = .error (.flaw e)
  unlisted : ∀ pattern e, tests.scenarioNames = .ok pattern →
    t.lookup (Path.join root tests.dir) = .error e →
    result = .error (.unlisted (Path.join root tests.dir) e)
  found : ∀ pattern found, tests.scenarioNames = .ok pattern →
    t.lookup (Path.join root tests.dir) = .ok found →
    ∃ names, FilesAre t root tests.dir pattern.Matches names ∧
      result = .ok (names.map (tests.dir ++ "/" ++ ·))

theorem scenariosFound (ht : t.Distinct) (tests : Tests) (root : String) :
    ScenariosFound tests t root (tests.scenarioScripts t root) where
  flawed e he := by simp only [scenarioScripts, he]
  unlisted pattern e hpattern h := by
    simp only [scenarioScripts, hpattern, filesIn_of_error pattern.fits h]
  found pattern found hpattern h := by
    obtain ⟨names, hnames, hpaths⟩ := filesIn_of_ok ht pattern.fits h
    simp only [NamePattern.fits_iff] at hnames
    exact ⟨names, hnames, by simp only [scenarioScripts, hpattern, hpaths]⟩

/-! ## Fuzz cases -/

structure FuzzCasesFound (tests : Tests) (t : FileTree) (root : String)
    (result : Except TestFilesError (List TestCase)) : Prop where
  unset : tests.fuzz = none → result = .ok []
  absent : ∀ dir, tests.fuzz = some dir → t.isDirectory (Path.join root dir) = false →
    result = .ok []
  found : ∀ dir, tests.fuzz = some dir → t.isDirectory (Path.join root dir) = true →
    ∃ names, FilesAre t root dir (fun _ => True) names ∧
      result = .ok (names.map fun name => fuzzCase (dir ++ "/" ++ name))

theorem fuzzCasesFound (ht : t.Distinct) (tests : Tests) (root : String) :
    FuzzCasesFound tests t root (tests.fuzzInputs t root) where
  unset hfuzz := by rw [fuzzInputs, hfuzz]
  absent dir hfuzz hdir := by simp [fuzzInputs, hfuzz, hdir]
  found dir hfuzz hdir := by
    obtain ⟨loc, h⟩ := FileTree.isDirectory_eq_true_iff.mp hdir
    obtain ⟨names, hnames, hpaths⟩ := filesIn_of_ok ht (fun _ => true) h
    simp only at hnames
    exact ⟨names, hnames, by simp [fuzzInputs, hfuzz, hdir, hpaths, Function.comp_def]⟩

/-! ## Fixtures -/

/-- The file at a path of the project is read, and is the definition of a fixture. -/
def Defines (tests : Tests) (t : FileTree) (root path : String) (d : TestCase) : Prop :=
  ∃ text, t.readText (Path.join root path) = .ok text ∧
    Fixture.testCase path text tests.fallbackArguments = .ok d

/-- The file at a path of the project is not read, or is no definition. -/
inductive Fails (tests : Tests) (t : FileTree) (root path : String) : TestFilesError → Prop
  | unreadable {e : FileError} (h : t.readText (Path.join root path) = .error e) :
      Fails tests t root path (.unreadable (Path.join root path) e)
  | malformed {text : String} {e : Fixture.BadStatus}
      (h : t.readText (Path.join root path) = .ok text)
      (hdefine : Fixture.testCase path text tests.fallbackArguments = .error e) :
      Fails tests t root path (.badStatus path e)

theorem defines_of_defineFixture {d : TestCase}
    (h : defineFixture t root tests.fallbackArguments path = .ok d) :
    Defines tests t root path d := by
  unfold defineFixture at h
  dsimp only at h
  split at h
  · cases h
  · rename_i text htext
    split at h
    · cases h
    · rename_i d' htest
      obtain rfl := Except.ok.inj h
      exact ⟨text, htext, htest⟩

theorem fails_of_defineFixture {e : TestFilesError}
    (h : defineFixture t root tests.fallbackArguments path = .error e) :
    Fails tests t root path e := by
  unfold defineFixture at h
  dsimp only at h
  split at h
  · rename_i reason htext
    obtain rfl := Except.error.inj h
    exact .unreadable htext
  · rename_i text htext
    split at h
    · rename_i reason htest
      obtain rfl := Except.error.inj h
      exact .malformed htext htest
    · cases h

/-- Files are read in order: the enabled ones of all definitions, or the error of the first file
that is none. Whether a fixture is enabled matters only once all are read. -/
inductive ReadsInOrder (tests : Tests) (t : FileTree) (root : String) (paths : List String) :
    Except TestFilesError (List TestCase) → Prop
  | all {ds : List TestCase} (h : List.Forall₂ (Defines tests t root) paths ds) :
      ReadsInOrder tests t root paths (.ok (ds.filter (·.enabled)))
  | stops {before behind : List String} {path : String} {e : TestFilesError}
      (hpaths : paths = before ++ path :: behind)
      (hbefore : ∀ other ∈ before, ∃ d, Defines tests t root other d)
      (h : Fails tests t root path e) : ReadsInOrder tests t root paths (.error e)

structure FixturesFound (tests : Tests) (t : FileTree) (root : String)
    (result : Except TestFilesError (List TestCase)) : Prop where
  flawed : ∀ e, tests.fixtureNames = .error e → result = .error (.flaw e)
  unlisted : ∀ pattern e, tests.fixtureNames = .ok pattern →
    t.lookup (Path.join root tests.dir) = .error e →
    result = .error (.unlisted (Path.join root tests.dir) e)
  found : ∀ pattern found, tests.fixtureNames = .ok pattern →
    t.lookup (Path.join root tests.dir) = .ok found →
    ∃ names, FilesAre t root tests.dir
        (fun name => pattern.Matches name ∧ tests.dir ++ "/" ++ name ≠ tests.support) names ∧
      ReadsInOrder tests t root (names.map (tests.dir ++ "/" ++ ·)) result

theorem fixturesFound (ht : t.Distinct) (tests : Tests) (root : String) :
    FixturesFound tests t root (tests.enabledFixtures t root) where
  flawed e he := by simp only [enabledFixtures, he]
  unlisted pattern e hpattern h := by
    simp only [enabledFixtures, hpattern, filesIn_of_error pattern.fits h]
  found pattern found hpattern h := by
    obtain ⟨names, hnames, hpaths⟩ := filesIn_of_ok ht pattern.fits h
    simp only [NamePattern.fits_iff] at hnames
    have hothers := hnames.filter fun name => tests.dir ++ "/" ++ name != tests.support
    simp only [and_assoc, bne_iff_ne] at hothers
    refine ⟨_, hothers, ?_⟩
    simp only [enabledFixtures, hpattern, hpaths, List.filter_map, Function.comp_def]
    generalize List.map (tests.dir ++ "/" ++ ·) _ = paths
    cases hread : paths.mapM (defineFixture t root tests.fallbackArguments) with
    | ok ds =>
      refine .all ((mapM_eq_ok_iff.mp hread).imp fun path d => defines_of_defineFixture)
    | error e =>
      obtain ⟨before, path, behind, hpaths, hbefore, hfails⟩ := mapM_eq_error_iff.mp hread
      exact .stops hpaths
        (fun other hother => (hbefore other hother).imp fun d => defines_of_defineFixture)
        (fails_of_defineFixture hfails)

/-! ## Any order of the items -/

theorem filesIn_rearranged (ht : t.Distinct) (h : Rearranged t t') (root dir : String)
    (fits : String → Bool) : filesIn t' root dir fits = filesIn t root dir fits := by
  unfold filesIn
  dsimp only
  rw [h.fileNames_eq ht]

theorem defineFixture_rearranged (ht : t.Distinct) (h : Rearranged t t') (root fallback : String) :
    defineFixture t' root fallback = defineFixture t root fallback := by
  funext path
  unfold defineFixture
  dsimp only
  rw [h.readText_eq ht]

/-- **The tests are found exactly**: scenarios, fuzz cases and fixtures are the files of their
directory whose names fit, each once and in the order of the names' bytes; of the fixtures all are
read in that order, and the enabled ones are left. The order in which the tree has its items does not
matter. -/
theorem discovery_exact (ht : t.Distinct) (tests : Tests) (root : String) :
    ScenariosFound tests t root (tests.scenarioScripts t root) ∧
    FuzzCasesFound tests t root (tests.fuzzInputs t root) ∧
    FixturesFound tests t root (tests.enabledFixtures t root) ∧
    ∀ t', Rearranged t t' →
      tests.scenarioScripts t' root = tests.scenarioScripts t root ∧
      tests.fuzzInputs t' root = tests.fuzzInputs t root ∧
      tests.enabledFixtures t' root = tests.enabledFixtures t root := by
  refine ⟨scenariosFound ht tests root, fuzzCasesFound ht tests root, fixturesFound ht tests root,
    fun t' h => ⟨?_, ?_, ?_⟩⟩
  · simp only [scenarioScripts, filesIn_rearranged ht h]
  · simp only [fuzzInputs, filesIn_rearranged ht h, h.isDirectory_eq ht]
  · simp only [enabledFixtures, filesIn_rearranged ht h, defineFixture_rearranged ht h]

namespace Mixed

def project : Tests := ⟨"test", "test/common.c", none, none, some "fuzz", none⟩

/-- Two disabled fixtures, of which the second has a status that cannot be read; the support file;
and two scenarios next to a directory that is named like one. -/
def tree : FileTree where
  items :=
    [(["p", "test", "update_\u00e9.scn"], .file [] false), (["p"], .directory),
      (["p", "test", "b.c"], .file (Text.toUtf8 "// DISABLED\n// RET: x\n") false),
      (["p", "test", "common.c"], .file [255] false), (["p", "test"], .directory),
      (["p", "test", "update_x.scn"], .directory),
      (["p", "test", "a.c"], .file (Text.toUtf8 "// DISABLED\n") false),
      (["p", "test", "update_z.scn"], .file [] false)]

theorem filesIn_tree (fits : String → Bool) :
    filesIn tree "p" "test" fits =
      .ok ((["a.c", "b.c", "common.c", "update_z.scn", "update_\u00e9.scn"].filter fits).map
        ("test/" ++ ·)) := by
  have hlookup : tree.lookup (Path.join "p" "test") = .ok (["p", "test"], .directory) := by
    decide +kernel
  have hchildren : tree.children ["p", "test"] =
      ["a.c", "b.c", "common.c", "update_x.scn", "update_z.scn", "update_\u00e9.scn"] :=
    (FileTree.eq_sortNames (by decide +kernel) (by decide +kernel)).symm
  unfold filesIn
  dsimp only
  rw [FileTree.fileNames_of_directory hlookup, FileTree.filesOf, hchildren]
  rfl

theorem discovery_mixed :
    tree.Distinct ∧
      ScenariosFound project tree "p" (.ok ["test/update_z.scn", "test/update_\u00e9.scn"]) ∧
      FuzzCasesFound project tree "p" (.ok []) ∧
      FixturesFound project tree "p" (.error (.badStatus "test/b.c" ⟨2, "x"⟩)) ∧
      ∀ t', Rearranged tree t' →
        project.enabledFixtures t' "p" = .error (.badStatus "test/b.c" ⟨2, "x"⟩) := by
  have hdistinct : tree.Distinct := by decide
  obtain ⟨hscripts, hcases, hfixtures, hany⟩ := discovery_exact hdistinct project "p"
  have hdir : project.dir = "test" := rfl
  have hscriptsAre : project.scenarioScripts tree "p" =
      .ok ["test/update_z.scn", "test/update_\u00e9.scn"] := by
    simp only [scenarioScripts, hdir, filesIn_tree]
    decide +kernel
  have hcasesAre : project.fuzzInputs tree "p" = .ok [] := by decide +kernel
  have hfixturesAre : project.enabledFixtures tree "p" =
      .error (.badStatus "test/b.c" ⟨2, "x"⟩) := by
    simp only [enabledFixtures, hdir, filesIn_tree]
    decide +kernel
  rw [hscriptsAre] at hscripts
  rw [hcasesAre] at hcases
  rw [hfixturesAre] at hfixtures
  exact ⟨hdistinct, hscripts, hcases, hfixtures, fun t' h => (hany t' h).2.2.trans hfixturesAre⟩

end Mixed

end Project.Tests

end BuildPlan
