import BuildPlan.TestRun.Process
import Mathlib.Data.List.Basic

/-!
# When a crash is reported

An end that is not normal is assessed as a crash, whatever status was expected
(`assess_eq_crash_iff`). But the output is compared first, so a process that crashed is reported as
crashed exactly if its output is not compared or is the expected one, and otherwise its output is
reported (`crash_reported_iff`). No process that crashed passes its test (`verdict_eq_pass_iff`).
-/

namespace BuildPlan.TestRun

/-! ## How a process ended -/

theorem assess_of_abnormal {status : EndStatus} (h : isNormal status = false)
    (expected : RequiredStatus) : assess status expected = .crash status := by
  cases status with
  | none => rfl
  | some code => cases expected <;> simp [assess, h]

theorem assess_noCrash_of_normal {code : Int32} (h : isNormal (some code) = true) :
    assess (some code) .noCrash = .pass := by
  rw [assess, if_pos h]

theorem assess_exit_of_normal {code : Int32} (h : isNormal (some code) = true) (wanted : Int32) :
    assess (some code) (.exit wanted) =
      if code = wanted then .pass else .otherStatus wanted code := by
  rw [assess, if_neg (by simp [h])]

theorem assess_eq_crash_iff {status crashed : EndStatus} {expected : RequiredStatus} :
    assess status expected = .crash crashed ↔ isNormal status = false ∧ crashed = status := by
  cases h : isNormal status with
  | false =>
    rw [assess_of_abnormal h]
    simp [eq_comm]
  | true =>
    cases status with
    | none => cases h
    | some code =>
      cases expected with
      | noCrash => simp [assess_noCrash_of_normal h]
      | exit wanted =>
        rw [assess_exit_of_normal h]
        split <;> simp

theorem assess_eq_pass_iff {status : EndStatus} {expected : RequiredStatus} :
    assess status expected = .pass ↔
      isNormal status = true ∧ ∀ wanted, expected = .exit wanted → status = some wanted := by
  cases h : isNormal status with
  | false => simp [assess_of_abnormal h]
  | true =>
    cases status with
    | none => cases h
    | some code =>
      cases expected with
      | noCrash => simp [assess_noCrash_of_normal h]
      | exit wanted =>
        rw [assess_exit_of_normal h]
        split <;> simp_all

/-! ## What a process did -/

/-- The output is not compared, or it is the expected one. -/
def OutputFits (record : TestRecord) (stdout : Bytes) : Prop :=
  record.comparesOutput = true → normalOutput stdout = record.output

variable {record : TestRecord} {outcome : Outcome}

theorem verdict_of_fits (h : OutputFits record outcome.stdout) :
    verdict record outcome = assess outcome.status record.status := by
  rw [verdict, if_neg]
  simpa [OutputFits] using h

theorem verdict_of_not_fits (h : ¬ OutputFits record outcome.stdout) :
    verdict record outcome = .otherOutput record.output (normalOutput outcome.stdout) := by
  rw [verdict, if_pos]
  simpa [OutputFits] using h

theorem verdict_eq_crash_iff {crashed : EndStatus} :
    verdict record outcome = .crash crashed ↔
      OutputFits record outcome.stdout ∧ isNormal outcome.status = false ∧
        crashed = outcome.status := by
  by_cases h : OutputFits record outcome.stdout
  · simp [verdict_of_fits h, assess_eq_crash_iff, h]
  · simp [verdict_of_not_fits h, h]

/-- **A test passes** exactly if its process ended normally, with the status and the output that are
asked for. -/
theorem verdict_eq_pass_iff :
    verdict record outcome = .pass ↔
      OutputFits record outcome.stdout ∧ isNormal outcome.status = true ∧
        ∀ wanted, record.status = .exit wanted → outcome.status = some wanted := by
  by_cases h : OutputFits record outcome.stdout
  · simp [verdict_of_fits h, assess_eq_pass_iff, h]
  · simp [verdict_of_not_fits h, h]

theorem assess_ne_otherOutput (status : EndStatus) (wanted : RequiredStatus)
    (expected actual : String) : assess status wanted ≠ .otherOutput expected actual := by
  cases h : isNormal status with
  | false => simp [assess_of_abnormal h]
  | true =>
    cases status with
    | none => cases h
    | some code =>
      cases wanted with
      | noCrash => simp [assess_noCrash_of_normal h]
      | exit wanted =>
        rw [assess_exit_of_normal h]
        split <;> simp

theorem verdict_eq_otherOutput_iff {expected actual : String} :
    verdict record outcome = .otherOutput expected actual ↔
      ¬ OutputFits record outcome.stdout ∧ record.output = expected ∧
        normalOutput outcome.stdout = actual := by
  by_cases h : OutputFits record outcome.stdout
  · simp [verdict_of_fits h, assess_ne_otherOutput, h]
  · simp [verdict_of_not_fits h, h]

/-! ## Runs -/

variable {host : Host} {t t' : FileTree} {root program : String}

theorem execute_eq_ok_iff :
    execute host t root program record = (t', .ok outcome) ↔
      host t (launch root program record) = (t', .ok outcome) := by
  rw [execute]
  split
  · rename_i h
    simp [h]
  · rename_i h
    simp [h]

theorem run_of_execute (h : execute host t root program record = (t', .ok outcome)) :
    run host t root program record = (t', .ok (verdict record outcome)) := by
  rw [run, h]

/-- **When a crash is reported.** A process that does not end normally is reported to have crashed,
with the status of its end, exactly if its output is not compared or is the expected one. Otherwise
its output is reported, and what was expected of it, and no crash. A run on any host reports of a
process no other verdict than this one. -/
theorem crash_reported_iff (record : TestRecord) (outcome : Outcome)
    (hend : isNormal outcome.status = false) :
    (verdict record outcome = .crash outcome.status ↔
      (record.comparesOutput = true → normalOutput outcome.stdout = record.output)) ∧
    (record.comparesOutput = true → normalOutput outcome.stdout ≠ record.output →
      verdict record outcome = .otherOutput record.output (normalOutput outcome.stdout)) ∧
    ∀ (host : Host) t t' root program,
      host t (launch root program record) = (t', .ok outcome) →
      run host t root program record = (t', .ok (verdict record outcome)) := by
  refine ⟨?_, fun hcompares hdiffers => ?_, fun host t t' root program hhost => ?_⟩
  · simp only [verdict_eq_crash_iff, hend, and_true]
    rfl
  · exact verdict_of_not_fits fun hfits => hdiffers (hfits hcompares)
  · exact run_of_execute (execute_eq_ok_iff.mpr hhost)

/-! ### A crash behind other output -/

namespace Sample

def tree (script : String) : FileTree where
  items := [(["bin"], .directory), (["bin", "sh"], .file [] true), (["p"], .directory),
    (["p", "t.sh"], .file (Text.toUtf8 script) false)]

/-- A record that expects the output `ok` of the script. -/
def wantsOk : TestRecord := .current "t.sh" .noCrash "ok\n"

/-- The crash is reported where what is expected was written before it. -/
theorem crash_reported_iff_expected :
    isNormal (some 117) = false ∧
      verdict wantsOk ⟨Text.toUtf8 "ok\n", some 117⟩ = .crash (some 117) ∧
      run Launch.start (tree "echo ok\nexit 117\n") "p" "/bin/sh" wantsOk =
        (tree "echo ok\nexit 117\n", .ok (.crash (some 117))) := by
  have hend : isNormal (some 117) = false := by decide
  have hhost : Launch.start (tree "echo ok\nexit 117\n") (launch "p" "/bin/sh" wantsOk) =
      (tree "echo ok\nexit 117\n", .ok ⟨Text.toUtf8 "ok\n", some 117⟩) := by decide +kernel
  obtain ⟨hcrash, -, hruns⟩ :=
    crash_reported_iff wantsOk ⟨Text.toUtf8 "ok\n", some 117⟩ hend
  have hverdict := hcrash.mpr fun _ => by decide +kernel
  exact ⟨hend, hverdict, hverdict ▸ hruns _ _ _ _ _ hhost⟩

/-- **Crashes that are reported as other output**: a script that writes nothing ends with the status
of the sanitizer, or is killed by a signal. -/
theorem crash_as_other_output :
    isNormal (some 117) = false ∧ isNormal none = false ∧
      verdict wantsOk ⟨[], some 117⟩ = .otherOutput "ok\n" "" ∧
      verdict wantsOk ⟨[], none⟩ = .otherOutput "ok\n" "" ∧
      run Launch.start (tree "exit 117\n") "p" "/bin/sh" wantsOk =
        (tree "exit 117\n", .ok (.otherOutput "ok\n" "")) := by
  refine ⟨?_, ?_, ?_, ?_, ?_⟩ <;> decide +kernel

end Sample

end BuildPlan.TestRun
