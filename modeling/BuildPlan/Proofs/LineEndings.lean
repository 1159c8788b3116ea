import BuildPlan.Fixture.Definition
import BuildPlan.Proofs.Lines
import BuildPlan.Proofs.Replacing
import BuildPlan.Scenario.Compiled

/-!
# Line endings of scripts and fixtures

Scripts and fixtures are read line by line, so what they say depends on their lines alone. A text
has the same lines when a carriage return is put in front of each of its line feeds, unless one
stands there already (`lines_withReturns`): what is put in is taken away with the line endings, and
any other carriage return stays in its line, also at the end of a last line that has no line feed.
-/

namespace BuildPlan

/-! ## The lines of a text with carriage returns -/

namespace Text

/-- The text with a carriage return in front of each line feed. -/
def withReturns (s : List Char) : List Char :=
  s.flatMap fun c => if c = '\n' then ['\r', '\n'] else [c]

theorem withReturns_of_notMem {l : List Char} (h : '\n' ∉ l) : withReturns l = l :=
  flatMap_of_notMem h _

theorem withReturns_append_newline {l : List Char} (h : '\n' ∉ l) (rest : List Char) :
    withReturns (l ++ '\n' :: rest) = (l ++ ['\r']) ++ '\n' :: withReturns rest := by
  rw [withReturns, List.flatMap_append, ← withReturns, withReturns_of_notMem h, List.flatMap_cons,
    if_pos rfl, ← withReturns, List.append_assoc]
  rfl

theorem feedsAlone_withReturns (s : List Char) : feedsAlone (withReturns s) = s := by
  induction s using line_induction with
  | last l hl => rw [withReturns_of_notMem hl, feedsAlone_of_notMem hl]
  | line l rest hl ih =>
    have hreturn : '\n' ∉ l ++ ['\r'] := by simp [hl]
    rw [withReturns_append_newline hl, feedsAlone_append_newline hreturn, ih, dropReturn,
      stripEnd?_concat, Option.getD_some]

theorem feedsAlone_of_not_infix {s : List Char} (h : ¬ ['\r', '\n'] <:+: s) :
    feedsAlone s = s := by
  rw [← occursIn_iff_infix, Bool.not_eq_true] at h
  rw [feedsAlone_eq, replaceFrom_of_not_occursIn _ h]

/-- **A text with carriage returns has the same lines**, unless it had some in front of line feeds
before. -/
theorem lines_withReturns {s : List Char} (h : ¬ ['\r', '\n'] <:+: s) :
    lines (withReturns s) = lines s := by
  rw [lines_eq_lines_iff, feedsAlone_withReturns, feedsAlone_of_not_infix h]

/-- The text with CRLF for each line feed. -/
def crlf (s : String) : String :=
  String.ofList (withReturns s.toList)

theorem lines_crlf {s : String} (h : ¬ ['\r', '\n'] <:+: s.toList) :
    lines (crlf s).toList = lines s.toList := by
  rw [crlf, String.toList_ofList, lines_withReturns h]

end Text

/-! ## What is read from a text -/

theorem Scenario.parse_congr {source source' : String}
    (h : Text.lines source.toList = Text.lines source'.toList) (name : String) :
    parse name source = parse name source' := by
  rw [parse, parse, h]

theorem Fixture.testCase_congr {contents contents' : String}
    (h : Text.lines contents.toList = Text.lines contents'.toList) (path fallback : String) :
    testCase path contents fallback = testCase path contents' fallback := by
  rw [testCase, testCase, h]

namespace Scenario.Compiled

theorem ofScript_congr {t t' : FileTree} {script source source' : String}
    (h : t.readText script = .ok source) (h' : t'.readText script = .ok source')
    (hlines : Text.lines source.toList = Text.lines source'.toList) :
    ofScript t script = ofScript t' script := by
  rw [ofScript, ofScript, h, h']
  simp only [parse_congr hlines]

/-- **Line endings do not matter.** A text whose line feeds have no carriage return in front of them
and the same text with CRLF give, as scripts, the same scenario or the same error under every name,
and the same driver wherever they are found; as fixtures they define the same test or have the same
mistake. -/
theorem read_crlf {source : String} (h : ¬ ['\r', '\n'] <:+: source.toList) :
    (∀ name, parse name (Text.crlf source) = parse name source) ∧
    (∀ (t t' : FileTree) (script : String), t.readText script = .ok source →
      t'.readText script = .ok (Text.crlf source) → ofScript t' script = ofScript t script) ∧
    ∀ path fallback, Fixture.testCase path (Text.crlf source) fallback =
      Fixture.testCase path source fallback := by
  have hlines : Text.lines (Text.crlf source).toList = Text.lines source.toList := Text.lines_crlf h
  exact ⟨parse_congr hlines, fun t t' script hread hread' => ofScript_congr hread' hread hlines,
    Fixture.testCase_congr hlines⟩

namespace Sample

/-- A script with carriage returns within its text, and one behind its last line, which has no line
feed. -/
def lone : String := "file a.c <<E\nx\ry\r\r \nE\nexpect 3\r"

theorem read_crlf_lone :
    ¬ ['\r', '\n'] <:+: lone.toList ∧
    Text.crlf lone = "file a.c <<E\r\nx\ry\r\r \r\nE\r\nexpect 3\r" ∧
    parse "s.scn" (Text.crlf lone) = .ok
      { name := "s.scn"
        files := [⟨"a.c", "x\ry\r\r \n"⟩]
        includePaths := []
        hostHelpers := []
        hostCode := []
        entry := usualEntry
        steps := [.expect 3 ⟨"s.scn", 4⟩] } := by
  have hlone : ¬ ['\r', '\n'] <:+: lone.toList := by decide +kernel
  refine ⟨hlone, by decide +kernel, ?_⟩
  rw [(read_crlf hlone).1]
  decide +kernel

end Sample

end Scenario.Compiled

end BuildPlan
