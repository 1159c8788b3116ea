import BuildPlan.Proofs.Arguments

/-!
# The directives of a text

What a fixture says is what its directives say, one after the other (`Expectation.steps_eq`), and
the lines of a text that ends with a line feed are not changed by what follows it. So two texts put
together say what they say one by one: the outputs one behind the other, the later arguments and the
later status, and the first mistake (`testCase_append`).
-/

namespace BuildPlan

/-! ## Texts put together -/

namespace Text

theorem joinWith_cons {sep s : String} {rest : List String} (h : rest ≠ []) :
    joinWith sep (s :: rest) = s ++ sep ++ joinWith sep rest := by
  cases rest with
  | nil => exact absurd rfl h
  | cons t rest => rfl

theorem joinWith_append {sep : String} {parts others : List String} (h : parts ≠ [])
    (h' : others ≠ []) :
    joinWith sep (parts ++ others) = joinWith sep parts ++ sep ++ joinWith sep others := by
  induction parts with
  | nil => exact absurd rfl h
  | cons part parts ih =>
    by_cases hlast : parts = []
    · subst hlast
      exact joinWith_cons h'
    · rw [List.cons_append, joinWith_cons (by simp [hlast]), ih hlast, joinWith_cons hlast]
      simp only [String.append_assoc]

end Text

namespace Fixture

open Text (joinWith unlines)

/-! ## Marks -/

def markText : String :=
  String.ofList selfMark

theorem exists_parts (s : String) :
    ∃ parts ≠ [], (∀ p ∈ parts, ¬ HasMark p) ∧ joinWith markText parts = s := by
  induction hn : s.toList.length using Nat.strong_induction_on generalizing s with
  | _ n ih =>
    by_cases hmark : HasMark s
    · obtain ⟨before, after, hs⟩ := Text.occursIn_iff_infix.mp hmark
      have hlength : before.length + 6 + after.length = n := by
        rw [← hn, ← hs, List.length_append, List.length_append]
        rfl
      obtain ⟨parts, hne, hparts, hjoin⟩ :=
        ih before.length (by omega) (String.ofList before) (by rw [String.toList_ofList])
      obtain ⟨others, hne', hothers, hjoin'⟩ :=
        ih after.length (by omega) (String.ofList after) (by rw [String.toList_ofList])
      refine ⟨parts ++ others, by simp [hne], List.forall_mem_append.mpr ⟨hparts, hothers⟩, ?_⟩
      rw [Text.joinWith_append hne hne', hjoin, hjoin', markText, ← String.ofList_append,
        ← String.ofList_append, hs, String.ofList_toList]
    · exact ⟨[s], by simp, by simpa using hmark, rfl⟩

/-- **Each mark gives way to the path**, and what was put in is not looked at again. -/
theorem substituteSelf_parts (path : String) {parts : List String}
    (h : ∀ p ∈ parts, ¬ HasMark p) :
    substituteSelf path (joinWith markText parts) = joinWith path parts := by
  induction parts with
  | nil => rfl
  | cons part parts ih =>
    obtain ⟨hpart, hparts⟩ := List.forall_mem_cons.mp h
    by_cases hlast : parts = []
    · subst hlast
      exact substituteSelf_of_not_hasMark path hpart
    · rw [Text.joinWith_cons hlast, Text.joinWith_cons hlast, ← ih hparts, ← String.toList_inj,
        toList_substituteSelf]
      simp only [String.toList_append, markText, String.toList_ofList, toList_substituteSelf]
      exact Text.replaceFrom_append_pat (by decide) (Bool.eq_false_iff.mpr hpart) _

theorem substituteSelf_unlines (path : String) (lines : List String) :
    substituteSelf path (unlines lines) = unlines (lines.map (substituteSelf path)) := by
  induction lines with
  | nil => rfl
  | cons line lines ih =>
    rw [List.map_cons, unlines, unlines, ← ih, ← String.toList_inj, toList_substituteSelf]
    simp only [String.toList_append, toList_substituteSelf, List.append_assoc]
    exact Text.replaceFrom_append_sep (by decide) (by decide) _ _ (Nat.zero_le _)

/-! ## What directives say -/

namespace Directive

def run? : Directive → Option String
  | run value => some value
  | _ => none

def ret? : Directive → Option String
  | ret value => some value
  | _ => none

def txt? : Directive → Option String
  | txt value => some value
  | _ => none

def status? (d : Directive) : Option RequiredStatus :=
  d.ret?.bind RequiredStatus.parse?

end Directive

def directivesOf (lines : List (List Char)) : List Directive :=
  lines.filterMap Directive.ofLine?

def directives (contents : String) : List Directive :=
  directivesOf (Text.lines contents.toList)

def Expectation.start (fallback : String) : Expectation :=
  { arguments := fallback }

/-- What is said if the directives stand behind those so far. -/
def Expectation.andThen (e : Expectation) (ds : List Directive) : Expectation where
  arguments := (ds.filterMap Directive.run?).getLast?.getD e.arguments
  status := (ds.filterMap Directive.status?).getLast?.getD e.status
  output := e.output ++ unlines (ds.filterMap Directive.txt?)
  enabled := e.enabled && !ds.contains .disabled

theorem Expectation.andThen_nil (e : Expectation) : e.andThen [] = e := by
  simp [andThen, unlines]

theorem Expectation.andThen_append (e : Expectation) (ds ds' : List Directive) :
    e.andThen (ds ++ ds') = (e.andThen ds).andThen ds' := by
  simp only [andThen, List.filterMap_append, List.getLast?_append, Option.getD_or,
    Text.unlines_append, String.append_assoc, List.contains_append, Bool.not_or, Bool.and_assoc]

def badStatus? (number : Nat) (line : List Char) : Option BadStatus :=
  match Directive.ofLine? line with
  | some (.ret value) =>
    if (RequiredStatus.parse? value).isNone then some ⟨number, value⟩ else none
  | _ => none

/-- The first mistake on lines of which the first has the given number. -/
def firstBad? (number : Nat) : List (List Char) → Option BadStatus
  | [] => none
  | line :: rest => (badStatus? number line).or (firstBad? (number + 1) rest)

theorem Expectation.step_eq (e : Expectation) (number : Nat) (line : List Char) :
    e.step number line =
      match badStatus? number line with
      | some err => .error err
      | none => .ok (e.andThen (Directive.ofLine? line).toList) := by
  unfold step badStatus?
  cases hline : Directive.ofLine? line with
  | none => simp [andThen_nil]
  | some d =>
    simp only [andThen, Option.toList_some, List.filterMap_cons, List.filterMap_nil,
      Directive.status?, List.contains_cons, List.contains_nil]
    cases d with
    | ret value =>
      cases hvalue : RequiredStatus.parse? value with
      | none => simp [hvalue]
      | some status => simp [Directive.run?, Directive.ret?, Directive.txt?, unlines, hvalue]
    | _ => simp [Directive.run?, Directive.ret?, Directive.txt?, unlines, String.append_assoc]

/-- **What lines say**: the first mistake, or what their directives say one after the other. -/
theorem Expectation.steps_eq (e : Expectation) (number : Nat) (lines : List (List Char)) :
    e.steps number lines =
      match firstBad? number lines with
      | some err => .error err
      | none => .ok (e.andThen (directivesOf lines)) := by
  induction lines generalizing e number with
  | nil => exact congrArg Except.ok e.andThen_nil.symm
  | cons line lines ih =>
    have hds : directivesOf (line :: lines) =
        (Directive.ofLine? line).toList ++ directivesOf lines := by
      unfold directivesOf
      rw [List.filterMap_cons]
      cases Directive.ofLine? line <;> rfl
    rw [steps, step_eq, firstBad?, hds, andThen_append]
    cases badStatus? number line with
    | some err => rfl
    | none => exact ih _ _

theorem firstBad?_append (number : Nat) (lines rest : List (List Char)) :
    firstBad? number (lines ++ rest) =
      (firstBad? number lines).or (firstBad? (number + lines.length) rest) := by
  induction lines generalizing number with
  | nil => rfl
  | cons line lines ih =>
    rw [List.cons_append, firstBad?, firstBad?, ih, Option.or_assoc, List.length_cons,
      Nat.add_right_comm, Nat.add_assoc number]

theorem badStatus?_add (number shift : Nat) (line : List Char) :
    badStatus? (number + shift) line =
      (badStatus? number line).map fun err => ⟨err.line + shift, err.value⟩ := by
  unfold badStatus?
  split
  · split <;> rfl
  · rfl

theorem firstBad?_add (number shift : Nat) (lines : List (List Char)) :
    firstBad? (number + shift) lines =
      (firstBad? number lines).map fun err => ⟨err.line + shift, err.value⟩ := by
  induction lines generalizing number with
  | nil => rfl
  | cons line lines ih =>
    rw [firstBad?, firstBad?, badStatus?_add, Nat.add_right_comm, ih]
    cases badStatus? number line <;> rfl

/-! ## Definitions of fixtures -/

/-- The definition that a fixture's directives give. -/
def Expectation.define (e : Expectation) (path : String) : TestCase :=
  ⟨path, substituteSelf path e.arguments, e.status, substituteSelf path e.output, e.enabled⟩

theorem testCase_eq (path contents fallback : String) :
    testCase path contents fallback =
      match firstBad? 1 (Text.lines contents.toList) with
      | some err => .error err
      | none =>
        .ok (((Expectation.start fallback).andThen (directives contents)).define path) := by
  rw [testCase, Expectation.steps_eq, directives, Expectation.start]
  cases firstBad? 1 (Text.lines contents.toList) <;> rfl

theorem testCase_eq_error_iff {path contents fallback : String} {err : BadStatus} :
    testCase path contents fallback = .error err ↔
      firstBad? 1 (Text.lines contents.toList) = some err := by
  rw [testCase_eq]
  cases firstBad? 1 (Text.lines contents.toList) <;> simp

theorem testCase_eq_ok_iff {path contents fallback : String} {d : TestCase} :
    testCase path contents fallback = .ok d ↔
      firstBad? 1 (Text.lines contents.toList) = none ∧
        ((Expectation.start fallback).andThen (directives contents)).define path = d := by
  rw [testCase_eq]
  cases firstBad? 1 (Text.lines contents.toList) <;> simp

/-- A text that is empty or ends with a line feed. -/
def IsWhole (s : String) : Prop :=
  s = "" ∨ s.toList.getLast? = some '\n'

theorem lines_append {a : String} (ha : IsWhole a) (b : String) :
    Text.lines (a ++ b).toList = Text.lines a.toList ++ Text.lines b.toList := by
  rw [String.toList_append]
  apply Text.lines_append
  rcases ha with rfl | ha
  · exact .inl rfl
  · exact .inr ha

theorem directives_append {a : String} (ha : IsWhole a) (b : String) :
    directives (a ++ b) = directives a ++ directives b := by
  rw [directives, lines_append ha, directivesOf, List.filterMap_append]
  rfl

theorem status?_isSome_of_ret {number : Nat} {lines : List (List Char)}
    (h : firstBad? number lines = none) {d : Directive} (hd : d ∈ directivesOf lines)
    (hret : d.ret?.isSome) : d.status?.isSome := by
  induction lines generalizing number with
  | nil => cases hd
  | cons line lines ih =>
    obtain ⟨hline, hrest⟩ := Option.or_eq_none_iff.mp h
    obtain ⟨line', hline', hd'⟩ := List.mem_filterMap.mp hd
    rcases List.mem_cons.mp hline' with rfl | hline'
    · cases d with
      | ret value =>
        simp only [badStatus?, hd'] at hline
        simpa [Directive.status?, Directive.ret?, Option.isSome_iff_ne_none] using hline
      | _ => cases hret
    · exact ih hrest (List.mem_filterMap.mpr ⟨line', hline', hd'⟩)

/-- The last status that is read is there exactly if there is a status at all. -/
theorem filterMap_status?_eq_nil_iff {number : Nat} {lines : List (List Char)}
    (h : firstBad? number lines = none) :
    (directivesOf lines).filterMap Directive.status? = [] ↔
      (directivesOf lines).filterMap Directive.ret? = [] := by
  rw [List.filterMap_eq_nil_iff, List.filterMap_eq_nil_iff]
  refine forall₂_congr fun d hd => ⟨fun hstatus => ?_, fun hret => ?_⟩
  · by_contra hret
    have hsome := status?_isSome_of_ret h hd (Option.isSome_iff_ne_none.mpr hret)
    rw [hstatus] at hsome
    cases hsome
  · rw [Directive.status?, hret, Option.bind_none]

theorem getLast?_getD_eq_ite {α : Type} (values : List α) [Decidable (values = [])] (x y : α) :
    values.getLast?.getD x = if values = [] then x else values.getLast?.getD y := by
  cases values with
  | nil => simp
  | cons value rest => simp [List.getLast?_cons]

theorem argumentLine_eq (contents fallback : String) :
    argumentLine contents fallback =
      ((directives contents).filterMap Directive.run?).getLast?.getD fallback := by
  have hrun : runOf? = fun line => (Directive.ofLine? line).bind Directive.run? := by
    funext line
    unfold runOf?
    cases Directive.ofLine? line with
    | none => rfl
    | some d => cases d <;> rfl
  rw [argumentLine, directives, directivesOf, List.filterMap_filterMap, hrun]

theorem output_testCase {path contents fallback : String} {d : TestCase}
    (h : testCase path contents fallback = .ok d) :
    d.output =
      unlines (((directives contents).filterMap Directive.txt?).map (substituteSelf path)) := by
  obtain ⟨-, rfl⟩ := testCase_eq_ok_iff.mp h
  simp only [Expectation.define, Expectation.andThen, Expectation.start, String.empty_append]
  exact substituteSelf_unlines path _

theorem Expectation.define_andThen (path fallback : String) (ds : List Directive)
    {number : Nat} {lines : List (List Char)} (h : firstBad? number lines = none) :
    (((Expectation.start fallback).andThen ds).andThen (directivesOf lines)).define path =
      let d := ((Expectation.start fallback).andThen ds).define path
      let d' := ((Expectation.start fallback).andThen (directivesOf lines)).define path
      { path := path
        arguments :=
          if (directivesOf lines).filterMap Directive.run? = [] then d.arguments else d'.arguments
        status :=
          if (directivesOf lines).filterMap Directive.ret? = [] then d.status else d'.status
        output := d.output ++ d'.output
        enabled := d.enabled && d'.enabled } := by
  simp only [define, andThen, start, String.empty_append, Bool.true_and, TestCase.mk.injEq,
    true_and, and_true]
  refine ⟨?_, ?_, ?_⟩
  · rw [getLast?_getD_eq_ite _ _ fallback, apply_ite (substituteSelf path)]
  · rw [getLast?_getD_eq_ite _ _ (.exit 0)]
    simp only [filterMap_status?_eq_nil_iff h]
  · rw [← Text.unlines_append, substituteSelf_unlines, substituteSelf_unlines,
      substituteSelf_unlines, List.map_append, Text.unlines_append]

/-- **Texts put together** say what they say one by one: the first mistake counts, under the number
of its line; the outputs stand one behind the other, and the later arguments and the later status
count. In what a directive or the fallback says each mark gives way to the path, and what was put in
is not looked at again. -/
theorem testCase_append (path fallback : String) {a : String} (ha : IsWhole a) (b : String) :
    (∀ e, testCase path a fallback = .error e → testCase path (a ++ b) fallback = .error e) ∧
    (∀ d, testCase path a fallback = .ok d →
      (∀ e, testCase path b fallback = .error e →
        testCase path (a ++ b) fallback =
          .error ⟨e.line + (Text.lines a.toList).length, e.value⟩) ∧
      (∀ d', testCase path b fallback = .ok d' →
        testCase path (a ++ b) fallback = .ok
          { path := path
            arguments :=
              if (directives b).filterMap Directive.run? = [] then d.arguments else d'.arguments
            status := if (directives b).filterMap Directive.ret? = [] then d.status else d'.status
            output := d.output ++ d'.output
            enabled := d.enabled && d'.enabled })) ∧
    (∀ contents d, testCase path contents fallback = .ok d →
      d.arguments = substituteSelf path
        (((directives contents).filterMap Directive.run?).getLast?.getD fallback) ∧
      d.output =
        unlines (((directives contents).filterMap Directive.txt?).map (substituteSelf path))) ∧
    (∀ s : String, ∃ parts, (∀ p ∈ parts, ¬ HasMark p) ∧ joinWith markText parts = s) ∧
    (∀ parts : List String, (∀ p ∈ parts, ¬ HasMark p) →
      substituteSelf path (joinWith markText parts) = joinWith path parts) := by
  have hbad : firstBad? 1 (Text.lines (a ++ b).toList) =
      (firstBad? 1 (Text.lines a.toList)).or
        ((firstBad? 1 (Text.lines b.toList)).map fun err =>
          ⟨err.line + (Text.lines a.toList).length, err.value⟩) := by
    rw [lines_append ha, firstBad?_append, firstBad?_add]
  refine ⟨fun e he => ?_, fun d hd => ⟨fun e he => ?_, fun d' hd' => ?_⟩, fun contents d hd => ?_,
    fun s => ?_, fun parts hparts => substituteSelf_parts path hparts⟩
  · rw [testCase_eq_error_iff] at he ⊢
    rw [hbad, he, Option.some_or]
  · rw [testCase_eq_error_iff] at he ⊢
    rw [hbad, (testCase_eq_ok_iff.mp hd).1, he, Option.none_or, Option.map_some]
  · obtain ⟨hnone, rfl⟩ := testCase_eq_ok_iff.mp hd
    obtain ⟨hnone', rfl⟩ := testCase_eq_ok_iff.mp hd'
    refine testCase_eq_ok_iff.mpr ⟨?_, ?_⟩
    · rw [hbad, hnone, hnone', Option.none_or, Option.map_none]
    · rw [directives_append ha, Expectation.andThen_append]
      exact Expectation.define_andThen path fallback (directives a) hnone'
  · rw [← argumentLine_eq]
    exact ⟨arguments_testCase hd, output_testCase hd⟩
  · obtain ⟨parts, -, hparts, hjoin⟩ := exists_parts s
    exact ⟨parts, hparts, hjoin⟩

/-- A mark that is begun in one directive is not finished in the next. -/
theorem testCase_append_crlf :
    IsWhole "// TXT: \x7bse\r\n// RET: 3\r\n" ∧
      testCase "t/x.c" "// TXT: \x7bse\r\n// RET: 3\r\n" "-q" =
        .ok ⟨"t/x.c", "-q", .exit 3, "\x7bse\n", true⟩ ∧
      testCase "t/x.c" "// TXT: lf\x7d\n// RUN: \x7bself\x7d" "-q" =
        .ok ⟨"t/x.c", "t/x.c", .exit 0, "lf\x7d\n", true⟩ ∧
      testCase "t/x.c"
          ("// TXT: \x7bse\r\n// RET: 3\r\n" ++ "// TXT: lf\x7d\n// RUN: \x7bself\x7d") "-q" =
        .ok ⟨"t/x.c", "t/x.c", .exit 3, "\x7bse\nlf\x7d\n", true⟩ ∧
      testCase "t/x.c" "\n// RET: x" "-q" = .error ⟨2, "x"⟩ ∧
      testCase "t/x.c" ("// TXT: \x7bse\r\n// RET: 3\r\n" ++ "\n// RET: x") "-q" =
        .error ⟨4, "x"⟩ := by
  have hwhole : IsWhole "// TXT: \x7bse\r\n// RET: 3\r\n" := .inr (by decide)
  have hd : testCase "t/x.c" "// TXT: \x7bse\r\n// RET: 3\r\n" "-q" =
      .ok ⟨"t/x.c", "-q", .exit 3, "\x7bse\n", true⟩ := by decide
  have hd' : testCase "t/x.c" "// TXT: lf\x7d\n// RUN: \x7bself\x7d" "-q" =
      .ok ⟨"t/x.c", "t/x.c", .exit 0, "lf\x7d\n", true⟩ := by decide
  have he : testCase "t/x.c" "\n// RET: x" "-q" = .error ⟨2, "x"⟩ := by decide
  have hboth :=
    (testCase_append "t/x.c" "-q" hwhole "// TXT: lf\x7d\n// RUN: \x7bself\x7d").2.1 _ hd
  have herr := (testCase_append "t/x.c" "-q" hwhole "\n// RET: x").2.1 _ hd
  exact ⟨hwhole, hd, hd', hboth.2 _ hd', he, herr.1 _ he⟩

end Fixture

end BuildPlan
