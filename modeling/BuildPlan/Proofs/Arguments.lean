import BuildPlan.Proofs.Inputs
import BuildPlan.Proofs.Replacing
import BuildPlan.Proofs.TestTargets
import BuildPlan.TestRun.Verdict

/-!
# Test paths as arguments

The runner cuts the argument line of a test at its blanks, and nothing in the line is quoted. So the
path of a fuzz case is one argument unless it has a blank, and the path of a fixture is put for its
mark inside one argument unless it has one (`path_whole_iff`).
-/

namespace BuildPlan

namespace Fixture

open Text (joinWith)

/-- Whether the mark for the fixture's path occurs in a text. -/
def HasMark (s : String) : Prop :=
  Text.occursIn selfMark s.toList = true

instance (s : String) : Decidable (HasMark s) :=
  inferInstanceAs (Decidable (_ = _))

theorem toList_substituteSelf (path s : String) :
    (substituteSelf path s).toList = Text.replaceFrom selfMark path.toList 0 s.toList :=
  String.toList_ofList

theorem substituteSelf_mark (path : String) :
    substituteSelf path (String.ofList selfMark) = path := by
  rw [← String.toList_inj, toList_substituteSelf, String.toList_ofList]
  exact List.append_nil _

theorem substituteSelf_of_not_hasMark (path : String) {s : String} (h : ¬ HasMark s) :
    substituteSelf path s = s := by
  rw [← String.toList_inj, toList_substituteSelf,
    Text.replaceFrom_of_not_occursIn _ (Bool.eq_false_iff.mpr h)]

theorem blank_mem_substituteSelf_iff {path s : String} (hs : ' ' ∉ s.toList) :
    ' ' ∈ (substituteSelf path s).toList ↔ HasMark s ∧ ' ' ∈ path.toList := by
  constructor
  · intro h
    by_cases hmark : HasMark s
    · rw [toList_substituteSelf] at h
      exact ⟨hmark, (Text.mem_or_mem_of_mem_replaceFrom h).resolve_left hs⟩
    · rw [substituteSelf_of_not_hasMark path hmark] at h
      exact absurd h hs
  · rintro ⟨hmark, hpath⟩
    rw [toList_substituteSelf]
    exact Text.mem_replaceFrom_of_occursIn (by decide) hmark hpath

theorem substituteSelf_joinWith (path : String) (words : List String) :
    substituteSelf path (joinWith " " words) = joinWith " " (words.map (substituteSelf path)) := by
  fun_induction joinWith " " words with
  | case1 => rfl
  | case2 w => rfl
  | case3 w rest hrest ih =>
    rw [List.map_cons, joinWith, ← ih]
    · rw [← String.toList_inj, toList_substituteSelf, String.toList_append, String.toList_append,
        List.append_assoc, show " ".toList = ' ' :: [] from rfl, List.cons_append, List.nil_append,
        Text.replaceFrom_append_sep (by decide) (by decide) _ _ (Nat.zero_le _)]
      simp [toList_substituteSelf]
    · simpa using hrest

/-! ## Argument lines -/

/-- The argument line that a line of a fixture gives. -/
def runOf? (line : List Char) : Option String :=
  match Directive.ofLine? line with
  | some (.run value) => some value
  | _ => none

/-- The argument line that the text of a fixture gives, with marks in it: the last one counts. -/
def argumentLine (contents fallbackArguments : String) : String :=
  ((Text.lines contents.toList).filterMap runOf?).getLast?.getD fallbackArguments

theorem Expectation.arguments_step {e e' : Expectation} {number : Nat} {line : List Char}
    (h : e.step number line = .ok e') : e'.arguments = (runOf? line).getD e.arguments := by
  rw [runOf?]
  unfold step at h
  split at h
  · obtain rfl := Except.ok.inj h
    simp [*]
  · obtain rfl := Except.ok.inj h
    simp [*]
  · split at h
    · obtain rfl := Except.ok.inj h
      simp [*]
    · cases h
  · obtain rfl := Except.ok.inj h
    simp [*]
  · obtain rfl := Except.ok.inj h
    simp [*]

theorem Expectation.arguments_steps {e e' : Expectation} {number : Nat} {lines : List (List Char)}
    (h : e.steps number lines = .ok e') :
    e'.arguments = (lines.filterMap runOf?).getLast?.getD e.arguments := by
  induction lines generalizing e number with
  | nil =>
    obtain rfl := Except.ok.inj h
    rfl
  | cons line lines ih =>
    rw [steps] at h
    split at h
    · cases h
    · rename_i e₁ hstep
      rw [ih h, arguments_step hstep, List.filterMap_cons]
      cases runOf? line with
      | none => rfl
      | some value => rw [List.getLast?_cons]; rfl

theorem arguments_testCase {path contents fallback : String} {d : TestCase}
    (h : testCase path contents fallback = .ok d) :
    d.arguments = substituteSelf path (argumentLine contents fallback) := by
  unfold testCase at h
  split at h
  · cases h
  · rename_i e hsteps
    obtain rfl := Except.ok.inj h
    rw [argumentLine, ← Expectation.arguments_steps hsteps]

end Fixture

/-! ## Records of discovered tests -/

namespace TestRun

open Fixture (HasMark substituteSelf)

theorem blank_notMem_of_mem_argumentsOf {line w : String} (h : w ∈ argumentsOf line) :
    ' ' ∉ w.toList := by
  obtain ⟨part, hpart, rfl⟩ := List.mem_map.mp h
  rw [String.toList_ofList]
  exact Text.notMem_of_mem_split hpart

theorem argumentsOf_eq_singleton_iff (path : String) :
    argumentsOf path = [path] ↔ ' ' ∉ path.toList := by
  constructor
  · intro h
    have hmem : path ∈ argumentsOf path := by rw [h]; exact List.mem_cons_self
    exact blank_notMem_of_mem_argumentsOf hmem
  · intro h
    rw [argumentsOf, Text.split_of_notMem h, List.map_singleton, String.ofList_toList]

theorem argumentsOf_joinWith {words : List String} (hne : words ≠ []) :
    argumentsOf (Text.joinWith " " words) = words.flatMap argumentsOf := by
  rw [argumentsOf, Text.split_joinWith_eq_flatMap rfl hne, List.map_flatMap]
  rfl

theorem argumentsOf_substituteSelf_iff {path : String} {words : List String} (hne : words ≠ [])
    (hwords : ∀ w ∈ words, ' ' ∉ w.toList) :
    argumentsOf (substituteSelf path (Text.joinWith " " words)) = words.map (substituteSelf path) ↔
      ' ' ∉ path.toList ∨ ∀ w ∈ words, ¬ HasMark w := by
  rw [Fixture.substituteSelf_joinWith, argumentsOf_joinWith (by simpa using hne)]
  constructor
  · intro h
    by_contra hcut
    obtain ⟨hpath, hmarks⟩ := not_or.mp hcut
    obtain ⟨w, hw, hmark⟩ : ∃ w ∈ words, HasMark w := by simpa using hmarks
    -- the word would be an argument, but the path brings a blank into it
    have hmem : substituteSelf path w ∈ (words.map (substituteSelf path)).flatMap argumentsOf := by
      rw [h]
      exact List.mem_map_of_mem hw
    obtain ⟨line, -, hline⟩ := List.mem_flatMap.mp hmem
    refine blank_notMem_of_mem_argumentsOf hline ?_
    exact (Fixture.blank_mem_substituteSelf_iff (hwords w hw)).mpr ⟨hmark, not_not.mp hpath⟩
  · intro h
    have hwhole : ∀ w ∈ words, argumentsOf (substituteSelf path w) = [substituteSelf path w] := by
      intro w hw
      rw [argumentsOf_eq_singleton_iff, Fixture.blank_mem_substituteSelf_iff (hwords w hw)]
      rintro ⟨hmark, hpath⟩
      exact h.elim (· hpath) (· w hw hmark)
    rw [List.flatMap_map, List.flatMap_congr hwhole, ← List.map_eq_flatMap]

end TestRun

namespace Project.Tests

open Fixture (HasMark argumentLine substituteSelf)
open TestRun (argumentsOf)

variable {tests : Tests} {t : FileTree} {root : String}

theorem arguments_of_mem_fuzzInputs {cases : List TestCase}
    (h : tests.fuzzInputs t root = .ok cases) {c : TestCase} (hc : c ∈ cases) :
    c.arguments = c.path := by
  obtain ⟨_, _, path, -, -, -, rfl⟩ := exists_of_mem_fuzzInputs h hc
  rfl

theorem arguments_of_mem_enabledFixtures {fixtures : List TestCase}
    (h : tests.enabledFixtures t root = .ok fixtures) {f : TestCase} (hf : f ∈ fixtures) :
    ∃ contents, t.readText (Path.join root f.path) = .ok contents ∧
      f.arguments = substituteSelf f.path (argumentLine contents tests.fallbackArguments) := by
  obtain ⟨_, _, -, -, hdefine⟩ := exists_of_mem_enabledFixtures h hf
  unfold defineFixture at hdefine
  dsimp only at hdefine
  split at hdefine
  · cases hdefine
  · rename_i contents hcontents
    split at hdefine
    · cases hdefine
    · rename_i htest
      obtain rfl := Except.ok.inj hdefine
      exact ⟨contents, hcontents, Fixture.arguments_testCase htest⟩

/-- **A path is one argument as long as it has no blank.** The record of a fuzz case gives exactly
the path of the case if that has no blank, and several arguments otherwise. The record of a fixture
gives the words of its argument line, the path put for every mark inside them, if the path has no
blank or no word has a mark; otherwise the blanks of the path cut words. -/
theorem path_whole_iff (tests : Tests) (t : FileTree) (root : String) :
    (∀ cases, tests.fuzzInputs t root = .ok cases → ∀ c ∈ cases,
      ∃ r, TestRecord.ofToken c.record.token = .ok r ∧
        (argumentsOf r.arguments = [c.path] ↔ ' ' ∉ c.path.toList)) ∧
    (∀ fixtures, tests.enabledFixtures t root = .ok fixtures → ∀ f ∈ fixtures,
      ∃ r contents, TestRecord.ofToken f.record.token = .ok r ∧
        t.readText (Path.join root f.path) = .ok contents ∧
        ∀ words ≠ [], (∀ w ∈ words, ' ' ∉ w.toList) →
          argumentLine contents tests.fallbackArguments = Text.joinWith " " words →
          (argumentsOf r.arguments = words.map (substituteSelf f.path) ↔
            ' ' ∉ f.path.toList ∨ ∀ w ∈ words, ¬ HasMark w)) ∧
    ∀ path, substituteSelf path (String.ofList Fixture.selfMark) = path := by
  refine ⟨fun cases hcases c hc => ?_, fun fixtures hfixtures f hf => ?_,
    Fixture.substituteSelf_mark⟩
  · refine ⟨c.record, Graph.Input.ofToken_record c, ?_⟩
    rw [show c.record.arguments = c.path from arguments_of_mem_fuzzInputs hcases hc]
    exact TestRun.argumentsOf_eq_singleton_iff c.path
  · obtain ⟨contents, hcontents, harguments⟩ := arguments_of_mem_enabledFixtures hfixtures hf
    refine ⟨f.record, contents, Graph.Input.ofToken_record f, hcontents, ?_⟩
    intro words hne hwords hline
    rw [show f.record.arguments = f.arguments from rfl, harguments, hline]
    exact TestRun.argumentsOf_substituteSelf_iff hne hwords

namespace Sample

def configured : Tests := ⟨"test", "test/common.c", none, none, some "fuzz", none⟩

/-- A fuzz case and a fixture with the given names; the fixture mentions itself twice. -/
def tree (caseName fixtureName : String) : FileTree where
  items :=
    [(["p"], .directory), (["p", "fuzz"], .directory), (["p", "fuzz", caseName], .file [] false),
      (["p", "test"], .directory), (["p", "test", fixtureName],
        .file (Text.toUtf8 "// RUN: -Itest \x7bself\x7d --map=\x7bself\x7d") false)]

def fixture (path arguments : String) : TestCase := ⟨path, arguments, .exit 0, "", true⟩

theorem path_whole_plain :
    ∃ c f, configured.fuzzInputs (tree "case" "x.c") "p" = .ok [c] ∧
      configured.enabledFixtures (tree "case" "x.c") "p" = .ok [f] ∧
      (∃ r, TestRecord.ofToken c.record.token = .ok r ∧ argumentsOf r.arguments = ["fuzz/case"]) ∧
      ∃ r, TestRecord.ofToken f.record.token = .ok r ∧
        argumentsOf r.arguments = ["-Itest", "test/x.c", "--map=test/x.c"] := by
  have hcases : configured.fuzzInputs (tree "case" "x.c") "p" = .ok [fuzzCase "fuzz/case"] := by
    decide +kernel
  have hfixtures : configured.enabledFixtures (tree "case" "x.c") "p" =
      .ok [fixture "test/x.c" "-Itest test/x.c --map=test/x.c"] := by decide +kernel
  have hcontents : (tree "case" "x.c").readText "p/test/x.c" =
      .ok "// RUN: -Itest \x7bself\x7d --map=\x7bself\x7d" := by decide +kernel
  obtain ⟨hcase, hfixture, -⟩ := path_whole_iff configured (tree "case" "x.c") "p"
  refine ⟨_, _, hcases, hfixtures, ?_, ?_⟩
  · obtain ⟨r, hr, hwhole⟩ := hcase _ hcases _ List.mem_cons_self
    exact ⟨r, hr, hwhole.mpr (by decide)⟩
  · obtain ⟨r, contents, hr, hread, hwords⟩ := hfixture _ hfixtures _ List.mem_cons_self
    obtain rfl := Except.ok.inj (hcontents.symm.trans hread)
    have hwhole := hwords ["-Itest", "\x7bself\x7d", "--map=\x7bself\x7d"] (by decide) (by decide)
      (by decide +kernel)
    exact ⟨r, hr, hwhole.mpr (.inl (by decide))⟩

/-- A blank in a path: the case comes as two arguments, and both words with a mark come cut. -/
theorem path_cut_at_blank :
    ∃ c f, configured.fuzzInputs (tree "case 1" "x y.c") "p" = .ok [c] ∧
      configured.enabledFixtures (tree "case 1" "x y.c") "p" = .ok [f] ∧
      (∃ r, TestRecord.ofToken c.record.token = .ok r ∧ c.path = "fuzz/case 1" ∧
        argumentsOf r.arguments = ["fuzz/case", "1"] ∧ argumentsOf r.arguments ≠ [c.path]) ∧
      ∃ r, TestRecord.ofToken f.record.token = .ok r ∧
        argumentsOf r.arguments = ["-Itest", "test/x", "y.c", "--map=test/x", "y.c"] ∧
        argumentsOf r.arguments ≠ ["-Itest", "\x7bself\x7d", "--map=\x7bself\x7d"].map
          (substituteSelf f.path) := by
  refine ⟨fuzzCase "fuzz/case 1", fixture "test/x y.c" "-Itest test/x y.c --map=test/x y.c",
    by decide +kernel, by decide +kernel, ⟨_, Graph.Input.ofToken_record _, ?_⟩,
    ⟨_, Graph.Input.ofToken_record _, ?_⟩⟩
  · decide +kernel
  · decide +kernel

end Sample

end Project.Tests

end BuildPlan
