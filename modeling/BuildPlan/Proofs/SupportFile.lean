import BuildPlan.Proofs.Spelling

/-!
# The support file

The file that is compiled with every fixture is left out of the fixtures by its text. The fixtures
are listed as `dir/name`, so this works where its path is spelled like that. Where it is spelled in
another way, as `./test/common.c` for the directory `test`, the support file is run as a test of its
own (`supportFile_listed_iff`).
-/

namespace BuildPlan

open BuildPlan.Path (IsName IsPlain SameFile components isAbsolute steps)

namespace Path

theorem not_isAbsolute_of_isPlain {path : String} (h : IsPlain path) : isAbsolute path = false := by
  rw [isAbsolute, beq_eq_false_iff_ne]
  intro hhead
  obtain ⟨cs, hcs⟩ := List.head?_eq_some_iff.mp hhead
  rw [IsPlain, hcs] at h
  exact absurd (h [] (Text.split_append_sep '/' [] cs ▸ List.mem_cons_self)) (by decide)

theorem sameFile_below_iff {dir name other : String} (hname : IsName name) (hother : IsName other) :
    SameFile (dir ++ "/" ++ name) (dir ++ "/" ++ other) ↔ name = other := by
  rw [SameFile, components_below, components_below, hname.steps, hother.steps,
    List.filter_append, List.filter_append, List.append_cancel_left_eq]
  constructor
  · intro h
    exact Component.name.inj (List.cons.inj h).1
  · rintro rfl
    rfl

end Path

namespace Project.Tests

variable {tests : Tests} {t : FileTree} {root : String} {fixtures : List TestCase}

/-- The path is that of a file directly in the test directory whose name fits and whose text is an
enabled definition. -/
def Offers (tests : Tests) (t : FileTree) (root path : String) : Prop :=
  ∃ pattern paths d, tests.fixtureNames = .ok pattern ∧
    filesIn t root tests.dir pattern.fits = .ok paths ∧ path ∈ paths ∧
    defineFixture t root tests.fallbackArguments path = .ok d ∧ d.enabled = true

theorem Offers.exists_name {path : String} (h : tests.Offers t root path) (ht : t.WellNamed) :
    ∃ name, IsName name ∧ path = tests.dir ++ "/" ++ name := by
  obtain ⟨_, _, _, -, hpaths, hpath, -, -⟩ := h
  exact exists_of_mem_filesIn ht hpaths hpath

theorem exists_fixture_iff (h : tests.enabledFixtures t root = .ok fixtures) {path : String} :
    (∃ d ∈ fixtures, d.path = path) ↔ tests.Offers t root path ∧ path ≠ tests.support := by
  obtain ⟨pattern, paths, ds, hpattern, hpaths, hds, rfl⟩ := enabledFixtures_eq_ok_iff.mp h
  constructor
  · rintro ⟨d, hd, rfl⟩
    obtain ⟨hmem, henabled⟩ := List.mem_filter.mp hd
    obtain ⟨path, hpath, hdefine⟩ := exists_mem_of_forall₂_right hds hmem
    rw [defineFixture_path hdefine]
    obtain ⟨hpath, hne⟩ := List.mem_filter.mp hpath
    exact ⟨⟨pattern, paths, d, hpattern, hpaths, hpath, hdefine, henabled⟩, bne_iff_ne.mp hne⟩
  · rintro ⟨⟨pattern', paths', d, hpattern', hpaths', hpath, hdefine, henabled⟩, hne⟩
    obtain rfl := Except.ok.inj (hpattern.symm.trans hpattern')
    obtain rfl := Except.ok.inj (hpaths.symm.trans hpaths')
    obtain ⟨d', hd', hdefine'⟩ :=
      exists_mem_of_forall₂ hds (List.mem_filter.mpr ⟨hpath, bne_iff_ne.mpr hne⟩)
    obtain rfl := Except.ok.inj (hdefine.symm.trans hdefine')
    exact ⟨d, List.mem_filter.mpr ⟨hd', henabled⟩, defineFixture_path hdefine⟩

/-- **When the support file is a fixture**: when a file on offer is the support file by its form and
the support file is spelled in another way. It is none if it is spelled like the files of the test
directory, or if there is nothing idle in its path and in that of the directory. -/
theorem supportFile_listed_iff (ht : t.WellNamed)
    (h : tests.enabledFixtures t root = .ok fixtures) :
    ((∃ d ∈ fixtures, SameFile d.path tests.support) ↔
      ∃ name, IsName name ∧ tests.Offers t root (tests.dir ++ "/" ++ name) ∧
        SameFile (tests.dir ++ "/" ++ name) tests.support ∧
        tests.support ≠ tests.dir ++ "/" ++ name) ∧
    ((∃ name, IsName name ∧ tests.support = tests.dir ++ "/" ++ name) →
      ∀ d ∈ fixtures, ¬ SameFile d.path tests.support) ∧
    (IsPlain tests.dir → IsPlain tests.support →
      ∀ d ∈ fixtures, ¬ SameFile d.path tests.support) := by
  have hiff : (∃ d ∈ fixtures, SameFile d.path tests.support) ↔
      ∃ name, IsName name ∧ tests.Offers t root (tests.dir ++ "/" ++ name) ∧
        SameFile (tests.dir ++ "/" ++ name) tests.support ∧
        tests.support ≠ tests.dir ++ "/" ++ name := by
    constructor
    · rintro ⟨d, hd, hsame⟩
      obtain ⟨hoffers, hne⟩ := (exists_fixture_iff h).mp ⟨d, hd, rfl⟩
      obtain ⟨name, hname, hpath⟩ := hoffers.exists_name ht
      rw [hpath] at hoffers hne hsame
      exact ⟨name, hname, hoffers, hsame, hne.symm⟩
    · rintro ⟨name, -, hoffers, hsame, hne⟩
      obtain ⟨d, hd, hpath⟩ := (exists_fixture_iff h).mpr ⟨hoffers, hne.symm⟩
      exact ⟨d, hd, hpath ▸ hsame⟩
  refine ⟨hiff, ?_, ?_⟩
  · rintro ⟨name, hname, hsupport⟩ d hd hsame
    obtain ⟨other, hother, -, hsame, hne⟩ := hiff.mp ⟨d, hd, hsame⟩
    rw [hsupport, Path.sameFile_below_iff hother hname] at hsame
    exact hne (hsame ▸ hsupport)
  · intro hdir hsupport d hd hsame
    obtain ⟨name, hname, -, hsame, hne⟩ := hiff.mp ⟨d, hd, hsame⟩
    have hplain : IsPlain (tests.dir ++ "/" ++ name) :=
      Path.isPlain_below_iff.mpr ⟨hdir, hname.isPlain⟩
    exact hne (Path.eq_of_sameFile (Path.not_isAbsolute_of_isPlain hplain)
      (Path.not_isAbsolute_of_isPlain hsupport) hsame hplain hsupport).symm

namespace Sample

def supportedBy (support : String) : Tests :=
  ⟨"test", support, none, none, none, none⟩

/-- The support file alone in the test directory. -/
def supportOnly : FileTree where
  items :=
    [(["p"], .directory), (["p", "test"], .directory), (["p", "test", "common.c"], .file [] false)]

/-- The support file is left out where it is spelled like the files of its directory. -/
theorem supportFile_listed_plain :
    supportOnly.WellNamed ∧
      (supportedBy "test/common.c").Offers supportOnly "p" "test/common.c" ∧
      ∃ fixtures, (supportedBy "test/common.c").enabledFixtures supportOnly "p" = .ok fixtures ∧
        ∀ d ∈ fixtures, ¬ SameFile d.path "test/common.c" := by
  have hnamed : supportOnly.WellNamed := by decide +kernel
  have hfixtures : (supportedBy "test/common.c").enabledFixtures supportOnly "p" = .ok [] := by
    decide +kernel
  have hoffers : (supportedBy "test/common.c").Offers supportOnly "p" "test/common.c" :=
    ⟨_, ["test/common.c"], _, rfl, by decide +kernel, List.mem_cons_self, rfl, by decide +kernel⟩
  exact ⟨hnamed, hoffers, [], hfixtures,
    (supportFile_listed_iff hnamed hfixtures).2.1 ⟨"common.c", by decide, rfl⟩⟩

/-- The support file is a fixture where it is spelled in another way. -/
theorem supportFile_listed_dotted :
    ∃ fixtures, (supportedBy "./test/common.c").enabledFixtures supportOnly "p" = .ok fixtures ∧
      ∃ d ∈ fixtures, d.path = "test/common.c" ∧ SameFile d.path "./test/common.c" := by
  refine ⟨[⟨"test/common.c", "-Itest ./test/common.c test/common.c", .exit 0, "", true⟩], ?_, ?_⟩
  · decide +kernel
  · decide +kernel

end Sample

end Project.Tests

end BuildPlan
