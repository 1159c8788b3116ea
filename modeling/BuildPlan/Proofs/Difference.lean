import BuildPlan.Proofs.Lines
import BuildPlan.Proofs.Tabulation
import BuildPlan.Proofs.Verdict

/-!
# What a difference of texts shows

No line has a line feed, so a difference is cut into its marked lines again, and each of them is
read as what was written (`split_difference`). It holds the lines of both texts and keeps as many of
them as possible (`difference_exact`). A difference is about lines: where two outputs differ in line
endings alone, it has no line that is marked as missing or extra (`mismatch_shown_iff`).
-/

namespace BuildPlan.TestRun

open BuildPlan.Text (endLastLine feedsAlone lines split unlines)

/-! ## Marked lines -/

namespace DiffLine

def line : DiffLine → List Char
  | common line => line
  | missing line => line
  | extra line => line

def read? : List Char → Option DiffLine
  | ' ' :: ' ' :: line => some (common line)
  | '-' :: ' ' :: line => some (missing line)
  | '+' :: ' ' :: line => some (extra line)
  | _ => none

theorem read?_text (d : DiffLine) : read? d.text.toList = some d := by
  cases d <;> simp [text, read?]

theorem mem_old_or_new {d : DiffLine} {ds : List DiffLine} (h : d ∈ ds) :
    d.line ∈ ds.filterMap old? ∨ d.line ∈ ds.filterMap new? := by
  simp only [List.mem_filterMap]
  cases d with
  | common line => exact .inl ⟨_, h, rfl⟩
  | missing line => exact .inl ⟨_, h, rfl⟩
  | extra line => exact .inr ⟨_, h, rfl⟩

theorem newline_notMem_text {d : DiffLine} (h : '\n' ∉ d.line) : '\n' ∉ d.text.toList := by
  cases d <;> simpa [text, line] using h

end DiffLine

theorem newline_notMem_difference {expected actual : List Char} {d : DiffLine}
    (h : d ∈ diffLines (lines expected) (lines actual)) : '\n' ∉ d.text.toList := by
  refine DiffLine.newline_notMem_text ?_
  have hmem := DiffLine.mem_old_or_new h
  rw [filterMap_old_diffLines, filterMap_new_diffLines] at hmem
  exact hmem.elim Text.newline_notMem_of_mem_lines Text.newline_notMem_of_mem_lines

theorem split_difference (expected actual : String) :
    split '\n' (difference expected actual).toList =
      (diffLines (lines expected.toList) (lines actual.toList)).map (·.text.toList) ++ [[]] := by
  rw [difference, Text.split_unlines, List.map_map]
  · rfl
  · intro text htext
    obtain ⟨d, hd, rfl⟩ := List.mem_map.mp htext
    exact newline_notMem_difference hd

/-- **A difference is exact and as short as possible.** Cut at its line feeds, it consists of marked
lines. Those that are not marked as extra are the lines of the expected text, those that are not
marked as missing are the lines of the actual one, and no two texts of these lines have more in
common than what it keeps. The table that it is made along is never left, and the walk ends. -/
theorem difference_exact (expected actual : String) :
    ∃ marked ds, split '\n' (difference expected actual).toList = marked ++ [[]] ∧
      marked.map DiffLine.read? = ds.map some ∧
      ds.filterMap DiffLine.old? = lines expected.toList ∧
      ds.filterMap DiffLine.new? = lines actual.toList ∧
      IsGreatest
        {n | ∃ c : List (List Char), c.Sublist (lines expected.toList) ∧
          c.Sublist (lines actual.toList) ∧ c.length = n}
        (ds.filterMap DiffLine.common?).length ∧
      byIndex? (lines expected.toList) (lines actual.toList) = some ds := by
  refine ⟨_, _, split_difference expected actual, ?_, filterMap_old_diffLines _ _,
    filterMap_new_diffLines _ _, isGreatest_common_diffLines _ _, byIndex?_eq _ _⟩
  rw [List.map_map]
  exact List.map_congr_left fun d _ => d.read?_text

example : difference "a\nb\nc\n" "a\nc\n" = "  a\n- b\n  c\n" := by decide +kernel

/-! ## Changes that a difference shows -/

/-- Some line is marked as missing or extra. -/
def ShowsChange (difference : String) : Prop :=
  ∃ part ∈ split '\n' difference.toList, ['-', ' '] <+: part ∨ ['+', ' '] <+: part

theorem DiffLine.marked_iff (d : DiffLine) :
    ['-', ' '] <+: d.text.toList ∨ ['+', ' '] <+: d.text.toList ↔ d.common? = none := by
  cases d <;> simp [text, common?]

theorem diffLines_self (ls : List (List Char)) : diffLines ls ls = ls.map .common := by
  induction ls with
  | nil => exact diffLines_nil []
  | cons l ls ih => rw [diffLines_cons_self, ih, List.map_cons]

theorem exists_uncommon_iff {old new : List (List Char)} :
    (∃ d ∈ diffLines old new, d.common? = none) ↔ old ≠ new := by
  constructor
  · rintro ⟨d, hd, hnone⟩ rfl
    rw [diffLines_self] at hd
    obtain ⟨l, -, rfl⟩ := List.mem_map.mp hd
    cases hnone
  · intro hne
    by_contra hno
    push Not at hno
    -- what is common is a line of both texts
    have hsame : ∀ side : DiffLine → Option (List Char),
        (∀ line, side (.common line) = some line) →
        (diffLines old new).filterMap side = (diffLines old new).filterMap DiffLine.common? := by
      intro side hside
      refine List.filterMap_congr fun d hd => ?_
      cases d with
      | common line => exact hside line
      | missing line => exact absurd rfl (hno _ hd)
      | extra line => exact absurd rfl (hno _ hd)
    have hold := hsame DiffLine.old? fun _ => rfl
    have hnew := hsame DiffLine.new? fun _ => rfl
    rw [filterMap_old_diffLines] at hold
    rw [filterMap_new_diffLines] at hnew
    exact hne (hold.trans hnew.symm)

theorem showsChange_iff {expected actual : String} :
    ShowsChange (difference expected actual) ↔ lines expected.toList ≠ lines actual.toList := by
  rw [← exists_uncommon_iff, ShowsChange, split_difference]
  simp [DiffLine.marked_iff]

/-! ## Reported mismatches -/

/-- **When a reported mismatch is shown.** Where the output of a process is reported as another one
than expected, the difference of the two shows a change exactly if they do not differ in line endings
alone: a carriage return in front of a line feed, or the line feed at the end. -/
theorem mismatch_shown_iff {record : TestRecord} {outcome : Outcome} {expected actual : String}
    (h : verdict record outcome = .otherOutput expected actual ∨
      ∃ host t t' root program, execute host t root program record = (t', .ok outcome) ∧
        run host t root program record = (t', .ok (.otherOutput expected actual))) :
    expected = record.output ∧ actual = normalOutput outcome.stdout ∧ expected ≠ actual ∧
      (ShowsChange (difference expected actual) ↔
        endLastLine (feedsAlone expected.toList) ≠ endLastLine (feedsAlone actual.toList)) := by
  have hverdict : verdict record outcome = .otherOutput expected actual := by
    rcases h with h | ⟨host, t, t', root, program, hexecute, hrun⟩
    · exact h
    · rw [run_of_execute hexecute] at hrun
      exact Except.ok.inj (Prod.mk.inj hrun).2
  obtain ⟨hunfit, rfl, rfl⟩ := verdict_eq_otherOutput_iff.mp hverdict
  refine ⟨rfl, rfl, fun hsame => hunfit fun _ => hsame.symm, ?_⟩
  exact showsChange_iff.trans (not_congr Text.lines_eq_lines_iff)

namespace Sample

/-- A mismatch in a line is shown. -/
theorem mismatch_shown_line :
    execute Launch.start (tree "echo no\n") "p" "/bin/sh" wantsOk =
        (tree "echo no\n", .ok ⟨Text.toUtf8 "no\n", some 0⟩) ∧
      run Launch.start (tree "echo no\n") "p" "/bin/sh" wantsOk =
        (tree "echo no\n", .ok (.otherOutput "ok\n" "no\n")) ∧
      ShowsChange (difference "ok\n" "no\n") := by
  have hexecute : execute Launch.start (tree "echo no\n") "p" "/bin/sh" wantsOk =
      (tree "echo no\n", .ok ⟨Text.toUtf8 "no\n", some 0⟩) := by decide +kernel
  have hrun : run Launch.start (tree "echo no\n") "p" "/bin/sh" wantsOk =
      (tree "echo no\n", .ok (.otherOutput "ok\n" "no\n")) := by decide +kernel
  refine ⟨hexecute, hrun, ?_⟩
  exact (mismatch_shown_iff (.inr ⟨_, _, _, _, _, hexecute, hrun⟩)).2.2.2.mpr (by decide)

/-- **A mismatch that no difference shows**: the line feed at the end is missing. -/
theorem mismatch_hidden :
    wantsOk.output ≠ "" ∧
      execute Launch.start (tree "printf ok\n") "p" "/bin/sh" wantsOk =
        (tree "printf ok\n", .ok ⟨Text.toUtf8 "ok", some 0⟩) ∧
      run Launch.start (tree "printf ok\n") "p" "/bin/sh" wantsOk =
        (tree "printf ok\n", .ok (.otherOutput "ok\n" "ok")) ∧
      ¬ ShowsChange (difference "ok\n" "ok") := by
  refine ⟨by decide, by decide +kernel, by decide +kernel, ?_⟩
  rw [showsChange_iff, not_not]
  decide

end Sample

end BuildPlan.TestRun
