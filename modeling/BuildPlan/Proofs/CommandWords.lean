import BuildPlan.Proofs.Expansion
import BuildPlan.Proofs.Regeneration

/-!
# Commands word for word

The command of a rule goes to the shell with its variables replaced. The path of a tool is written
so that it comes out as one word, but the values of a project are written as they are. So a command
that makes the library, packs headers or runs a test reaches its tool word for word exactly if each
of these values is a text that the shell takes as it is written (`commands_reach_iff`).
-/

namespace BuildPlan.Graph

open Ninja (expand?)
open Shell (EndsWord IsBareWord isInert words?)

/-! ## Commands -/

/-- What a command refers to. -/
inductive Reference where
  | project
  | source
  | outputs
  | inputs
  | record
  deriving DecidableEq, Repr

def Reference.variable : Reference → String
  | project => projectVariable
  | source => sourceVariable
  | outputs => "out"
  | inputs => "in"
  | record => recordVariable

/-- An argument of a command. -/
inductive Argument where
  | value (text : String)
  | below (dir : Reference) (path : String)
  | reference (r : Reference)
  deriving DecidableEq, Repr

namespace Argument

/-- The argument as it stands in the command. -/
def written : Argument → String
  | value text => text
  | below dir path => "$" ++ dir.variable ++ "/" ++ path
  | reference r => "$" ++ r.variable

def word (env : String → List Char) : Argument → List Char
  | value text => text.toList
  | below dir path => env dir.variable ++ '/' :: path.toList
  | reference r => env r.variable

end Argument

def commandLine (tool : String) (args : List Argument) : String :=
  Text.joinWith " " (toolWord tool :: args.map Argument.written)

namespace Input

/-- What the packer is told to make the library. -/
def libraryArguments (i : Input) : List Argument :=
  [.value "amalg", .value "--dir", .value i.project.library.dir,
    .value "--name", .value i.project.library.name,
    .value "--header", .below .source i.project.library.header,
    .value "--license", .below .project i.project.library.license,
    .value "--switch", .value i.project.library.switch,
    .value "--win", .value (i.generatedCode .win64),
    .value "--sysv", .value (i.generatedCode .sysV), .reference .inputs]

/-- What the packer is told to pack headers. -/
def headerArguments (i : Input) : List Argument :=
  [.value "compincl", .below .project i.project.includes.dir, .reference .outputs,
    .reference .inputs]

/-- What the runner is told to run a test. -/
def testArguments (i : Input) : List Argument :=
  [.reference .project, .value (i.buildDirectory ++ "/" ++ i.compiler), .reference .record]

theorem command_joinLibrary (i : Input) :
    i.command .joinLibrary = commandLine i.tools.packer i.libraryArguments := by
  rw [← String.toList_inj]
  unfold command libraryCommand
  simp [commandLine, libraryArguments, Text.joinWith, Argument.written,
    Reference.variable, projectVariable, sourceVariable]

theorem command_packHeaders (i : Input) :
    i.command .packHeaders = commandLine i.tools.packer i.headerArguments := by
  rw [← String.toList_inj]
  simp [command, commandLine, headerArguments, Text.joinWith, Argument.written,
    Reference.variable, projectVariable]

theorem command_runTest (i : Input) :
    i.command .runTest = commandLine i.tools.runner i.testArguments := by
  rw [← String.toList_inj]
  simp [command, commandLine, testArguments, Text.joinWith, Argument.written,
    Reference.variable, projectVariable, recordVariable]

end Input

/-! ## What the shell hands over -/

/-- The words that a tool is run with: the shell's words of the command with its variables replaced,
if they are nothing but text. Words are split and unquoted; that a shell would also expand a tilde at
the start of a word, and the patterns of pathnames, is left out. -/
def handed? (env : String → List Char) (command : String) : Option (List (List Char)) :=
  (expand? env command.toList).bind fun cs => words? (Shell.tokens cs)

/-- Plain words for what commands refer to. -/
structure PlainValues (env : String → List Char) : Prop where
  bare : ∀ r : Reference, IsBareWord (env r.variable)
  without : ∀ name, '$' ∉ env name

/-- A path that the shell takes as it is written where it is put as a tool: between double quotes if
it has a blank, and without quotes if it has none. -/
def IsToolPath (path : String) : Prop :=
  '\n' ∉ path.toList ∧
    if path.toList.any Text.isBlank then isInert true path.toList = true
    else path ≠ "" ∧ path.toList.head? ≠ some '#' ∧ isInert false path.toList = true

instance (path : String) : Decidable (IsToolPath path) :=
  inferInstanceAs (Decidable (_ ∧ ite _ _ _))

theorem toList_joinWith_blank (s : String) (rest : List String) :
    (Text.joinWith " " (s :: rest)).toList = s.toList ++ rest.flatMap fun t => ' ' :: t.toList := by
  induction rest generalizing s with
  | nil => exact (List.append_nil _).symm
  | cons t rest ih =>
    have hjoin : Text.joinWith " " (s :: t :: rest) =
        s ++ " " ++ Text.joinWith " " (t :: rest) := rfl
    rw [hjoin, String.toList_append, String.toList_append, ih, List.flatMap_cons, List.append_assoc]
    rfl

theorem toList_commandLine (tool : String) (args : List Argument) :
    (commandLine tool args).toList =
      (toolWord tool).toList ++ args.flatMap fun arg => ' ' :: arg.written.toList := by
  rw [commandLine, toList_joinWith_blank, List.flatMap_map]

/-- The path of a tool as the shell sees it. -/
def quotedPath (path : String) : List Char :=
  if path.toList.any Text.isBlank then '"' :: path.toList ++ ['"'] else path.toList

theorem any_isBlank_doubleDollars (path : String) :
    (doubleDollars path).toList.any Text.isBlank = path.toList.any Text.isBlank := by
  have hone : ∀ c : Char,
      (if c = '$' then ['$', '$'] else [c]).any Text.isBlank = Text.isBlank c := by
    intro c
    by_cases hc : c = '$'
    · subst hc
      rfl
    · simp [hc]
  simp only [doubleDollars, String.toList_ofList, List.any_flatMap, hone]

theorem expand?_toolWord {env : String → List Char} {path : String} (h : '\n' ∉ path.toList)
    (rest : List Char) :
    expand? env ((toolWord path).toList ++ rest) =
      (expand? env rest).map (quotedPath path ++ ·) := by
  have hdoubled : ∀ rest, expand? env ((doubleDollars path).toList ++ rest) =
      (expand? env rest).map (path.toList ++ ·) := fun rest => by
    rw [doubleDollars, String.toList_ofList, Ninja.expand?_doubled h]
  unfold toolWord quotedPath
  dsimp only
  rw [any_isBlank_doubleDollars]
  split_ifs
  · have htext : ("\"" ++ doubleDollars path ++ "\"").toList ++ rest =
        '"' :: ((doubleDollars path).toList ++ '"' :: rest) := by simp
    rw [htext, Ninja.expand?_cons _ (by decide) (by decide), hdoubled,
      Ninja.expand?_cons _ (by decide) (by decide), Option.map_map, Option.map_map]
    exact Option.map_congr fun cs _ => by simp
  · exact hdoubled rest

theorem words?_quotedPath {path : String} (h : IsToolPath path) {rest : List Char}
    (hrest : EndsWord rest) (fuel : Nat) :
    words? (Shell.tokensFrom (fuel + 1) (quotedPath path ++ rest)) =
      (words? (Shell.tokensFrom fuel rest)).map (path.toList :: ·) := by
  obtain ⟨-, h⟩ := h
  unfold quotedPath
  split_ifs at h ⊢
  · have htext : '"' :: path.toList ++ ['"'] ++ rest = '"' :: path.toList ++ '"' :: rest := by simp
    rw [htext, Shell.words?_quoted h hrest]
  · obtain ⟨hne, hcomment, hinert⟩ := h
    exact Shell.words?_inert (by simpa using hne) hcomment hinert hrest fuel

/-! ## Arguments -/

variable {env : String → List Char}

theorem Reference.isVariable (r : Reference) :
    r.variable.toList ≠ [] ∧ ∀ c ∈ r.variable.toList, Ninja.isVariableChar c = true := by
  cases r <;> exact ⟨by decide, List.all_eq_true.mp (by decide)⟩

theorem expand?_variable (r : Reference) {rest : List Char}
    (hrest : rest.head?.any Ninja.isVariableChar = false) :
    expand? env (("$" ++ r.variable).toList ++ rest) =
      (expand? env rest).map (env r.variable ++ ·) := by
  have htext : ("$" ++ r.variable).toList = '$' :: r.variable.toList := String.toList_append
  rw [htext, Ninja.expand?_reference r.isVariable.1 r.isVariable.2 hrest, String.ofList_toList]

theorem head?_any_of_endsWord {rest : List Char} (h : EndsWord rest) :
    rest.head?.any Ninja.isVariableChar = false := by
  rcases h with rfl | h
  · rfl
  · rw [h]
    rfl

theorem ne_of_isBare {cs : List Char} (h : ∀ c ∈ cs, Shell.isBare c = true ∧ c ≠ '$') :
    ∀ c ∈ cs, c ≠ '$' ∧ c ≠ '\n' := by
  intro c hc
  obtain ⟨hbare, hdollar⟩ := h c hc
  refine ⟨hdollar, ?_⟩
  rintro rfl
  cases hbare

theorem expand?_written {arg : Argument} (h : IsBareWord (arg.word env)) {rest : List Char}
    (hrest : EndsWord rest) :
    expand? env (arg.written.toList ++ rest) = (expand? env rest).map (arg.word env ++ ·) := by
  obtain ⟨-, -, hbare⟩ := h
  cases arg with
  | value text => exact Ninja.expand?_append (ne_of_isBare hbare) rest
  | below dir path =>
    have hpath : ∀ c ∈ '/' :: path.toList, c ≠ '$' ∧ c ≠ '\n' :=
      ne_of_isBare fun c hc => hbare c (List.mem_append_right _ hc)
    have htext : (Argument.below dir path).written.toList ++ rest =
        ("$" ++ dir.variable).toList ++ ('/' :: path.toList ++ rest) := by
      simp [Argument.written]
    rw [htext, expand?_variable dir rfl, Ninja.expand?_append hpath, Option.map_map]
    exact Option.map_congr fun cs _ => (List.append_assoc ..).symm
  | reference r => exact expand?_variable r (head?_any_of_endsWord hrest)

theorem endsWord_arguments (args : List Argument) :
    EndsWord (args.flatMap fun arg => ' ' :: arg.written.toList) := by
  cases args with
  | nil => exact .inl rfl
  | cons arg args => exact .inr rfl

theorem expand?_arguments {args : List Argument} (h : ∀ arg ∈ args, IsBareWord (arg.word env)) :
    expand? env (args.flatMap fun arg => ' ' :: arg.written.toList) =
      some ((args.map (·.word env)).flatMap (' ' :: ·)) := by
  induction args with
  | nil => rfl
  | cons arg args ih =>
    obtain ⟨harg, hargs⟩ := List.forall_mem_cons.mp h
    rw [List.flatMap_cons, List.cons_append, Ninja.expand?_cons _ (by decide) (by decide),
      expand?_written harg (endsWord_arguments args), ih hargs]
    rfl

/-- An argument keeps its dollar signs only if it has none, and comes out as its word then. -/
theorem expand?_written_cut (henv : PlainValues env) {arg : Argument} {rest out : List Char}
    (hrest : EndsWord rest) (h : expand? env (arg.written.toList ++ rest) = some out) :
    ∃ front behind, out = front ++ behind ∧ expand? env rest = some behind ∧
      front.count '$' ≤ (arg.word env).count '$' ∧
      (front.count '$' = (arg.word env).count '$' →
        front = arg.word env ∧ '$' ∉ arg.word env) := by
  have hnone : ∀ r : Reference, (env r.variable).count '$' = 0 := fun r =>
    List.count_eq_zero.mpr (henv.without _)
  cases arg with
  | value text => exact Ninja.expand?_cut henv.without hrest h
  | below dir path =>
    have htext : (Argument.below dir path).written.toList ++ rest =
        ("$" ++ dir.variable).toList ++ ('/' :: path.toList ++ rest) := by
      simp [Argument.written]
    rw [htext, expand?_variable dir rfl] at h
    obtain ⟨out, hout, rfl⟩ := Option.map_eq_some_iff.mp h
    obtain ⟨front, behind, rfl, hbehind, hcount, hall⟩ := Ninja.expand?_cut henv.without hrest hout
    refine ⟨env dir.variable ++ front, behind, (List.append_assoc ..).symm, hbehind, ?_, ?_⟩
    · rw [Argument.word, List.count_append, List.count_append]
      exact Nat.add_le_add_left hcount _
    · intro heq
      rw [Argument.word, List.count_append, List.count_append] at heq
      obtain ⟨rfl, hpath⟩ := hall (Nat.add_left_cancel heq)
      exact ⟨rfl, fun hd => (List.mem_append.mp hd).elim (henv.without _) hpath⟩
  | reference r =>
    have hread := h
    rw [Argument.written, expand?_variable r (head?_any_of_endsWord hrest)] at hread
    obtain ⟨behind, hbehind, rfl⟩ := Option.map_eq_some_iff.mp hread
    exact ⟨env r.variable, behind, rfl, hbehind, Nat.le_refl _, fun _ => ⟨rfl, henv.without _⟩⟩

theorem expand?_arguments_cut (henv : PlainValues env) {args : List Argument} {out : List Char}
    (h : expand? env (args.flatMap fun arg => ' ' :: arg.written.toList) = some out) :
    out.count '$' ≤ (args.map (·.word env)).flatten.count '$' ∧
      (out.count '$' = (args.map (·.word env)).flatten.count '$' →
        out = (args.map (·.word env)).flatMap (' ' :: ·) ∧
          '$' ∉ (args.map (·.word env)).flatten) := by
  induction args generalizing out with
  | nil =>
    obtain rfl := Option.some.inj h
    exact ⟨Nat.le_refl _, fun _ => ⟨rfl, List.not_mem_nil⟩⟩
  | cons arg args ih =>
    rw [List.flatMap_cons, List.cons_append, Ninja.expand?_cons _ (by decide) (by decide)] at h
    obtain ⟨out, hout, rfl⟩ := Option.map_eq_some_iff.mp h
    obtain ⟨front, behind, rfl, hbehind, hfront, hsame⟩ :=
      expand?_written_cut henv (endsWord_arguments args) hout
    obtain ⟨hrest, hsame'⟩ := ih hbehind
    have hblank : (' ' :: (front ++ behind)).count '$' = front.count '$' + behind.count '$' := by
      rw [List.count_cons_of_ne (by decide), List.count_append]
    rw [hblank, List.map_cons, List.flatten_cons, List.count_append]
    refine ⟨Nat.add_le_add hfront hrest, fun heq => ?_⟩
    obtain ⟨rfl, hnone⟩ := hsame (by omega)
    obtain ⟨rfl, hnone'⟩ := hsame' (by omega)
    exact ⟨rfl, fun hd => (List.mem_append.mp hd).elim hnone hnone'⟩

theorem endsWord_of_expand? {args : List Argument} {out : List Char}
    (h : expand? env (args.flatMap fun arg => ' ' :: arg.written.toList) = some out) :
    EndsWord out := by
  cases args with
  | nil => exact .inl (Option.some.inj h).symm
  | cons arg args =>
    rw [List.flatMap_cons, List.cons_append, Ninja.expand?_cons _ (by decide) (by decide)] at h
    obtain ⟨_, -, rfl⟩ := Option.map_eq_some_iff.mp h
    exact .inr rfl

theorem handed?_eq_some_iff {tool : String} (htool : IsToolPath tool) {args : List Argument}
    {words : List (List Char)} :
    handed? env (commandLine tool args) = some (tool.toList :: words) ↔
      ∃ cs, expand? env (args.flatMap fun arg => ' ' :: arg.written.toList) = some cs ∧
        words? (Shell.tokensFrom (2 * (quotedPath tool ++ cs).length + 1) cs) = some words := by
  rw [handed?, toList_commandLine, expand?_toolWord htool.1, Option.bind_eq_some_iff]
  constructor
  · rintro ⟨line, hline, hwords⟩
    obtain ⟨cs, hcs, rfl⟩ := Option.map_eq_some_iff.mp hline
    rw [Shell.tokens, words?_quotedPath htool (endsWord_of_expand? hcs)] at hwords
    obtain ⟨words', hrest, heq⟩ := Option.map_eq_some_iff.mp hwords
    obtain rfl := (List.cons.inj heq).2
    exact ⟨cs, hcs, hrest⟩
  · rintro ⟨cs, hcs, hwords⟩
    refine ⟨quotedPath tool ++ cs, by rw [hcs, Option.map_some], ?_⟩
    rw [Shell.tokens, words?_quotedPath htool (endsWord_of_expand? hcs), hwords, Option.map_some]

/-- **A command reaches its tool word for word** exactly if each of its arguments is a word that the
shell takes as it is written. -/
theorem handed?_commandLine (henv : PlainValues env) {tool : String} (htool : IsToolPath tool)
    {args : List Argument} {r : Reference} (hlast : args.getLast? = some (.reference r)) :
    handed? env (commandLine tool args) = some (tool.toList :: args.map (·.word env)) ↔
      ∀ arg ∈ args, IsBareWord (arg.word env) := by
  rw [handed?_eq_some_iff htool]
  constructor
  · rintro ⟨cs, hcs, hwords⟩
    obtain ⟨hcount, hall⟩ := expand?_arguments_cut henv hcs
    have hkept := (Shell.flatten_sublist hwords).count_le '$'
    obtain ⟨rfl, hnone⟩ := hall (Nat.le_antisymm hcount hkept)
    have hbare := Shell.isBareWord_of_room hwords (Shell.room_eq_roomIn _) hnone
    obtain ⟨front, rfl⟩ := List.getLast?_eq_some_iff.mp hlast
    rw [List.map_append, List.map_singleton, List.dropLast_concat] at hbare
    refine List.forall_mem_append.mpr ⟨fun arg harg => ?_, ?_⟩
    · exact hbare _ (List.mem_map_of_mem harg)
    · intro arg harg
      obtain rfl := List.mem_singleton.mp harg
      exact henv.bare r
  · intro hbare
    refine ⟨_, expand?_arguments hbare, Shell.words?_line ?_ ?_⟩
    · exact List.forall_mem_map.mpr hbare
    · have hroom := Shell.length_le_room (args.map (·.word env))
      rw [List.length_append, Shell.length_flatMap_blank]
      omega

/-! ## Values of a project -/

/-- A text of which the shell takes every character as it is written. -/
def IsBareText (s : String) : Prop :=
  ∀ c ∈ s.toList, Shell.isBare c = true ∧ c ≠ '$'

instance (s : String) : Decidable (IsBareText s) :=
  decidable_of_iff ((s.toList.all fun c => Shell.isBare c && c != '$') = true)
    (by simp [IsBareText])

theorem isBareWord_below_iff (henv : PlainValues env) {dir : Reference} {path : String} :
    IsBareWord ((Argument.below dir path).word env) ↔ IsBareText path := by
  obtain ⟨hne, hcomment, hbare⟩ := henv.bare dir
  rw [Argument.word]
  constructor
  · rintro ⟨-, -, hall⟩ c hc
    exact hall c (List.mem_append_right _ (List.mem_cons_of_mem _ hc))
  · intro hpath
    obtain ⟨c, cs, hcs⟩ := List.exists_cons_of_ne_nil hne
    rw [hcs] at hcomment hbare ⊢
    refine ⟨List.cons_ne_nil _ _, hcomment, ?_⟩
    exact List.forall_mem_append.mpr ⟨hbare, List.forall_mem_cons.mpr ⟨by decide, hpath⟩⟩

/-- **Commands word for word**: the commands that make the library, pack headers and run a test
reach their tools word for word exactly if the values in them are plain. -/
theorem commands_reach_iff (i : Input) (henv : PlainValues env)
    (hpacker : IsToolPath i.tools.packer) (hrunner : IsToolPath i.tools.runner) :
    (handed? env (i.command .joinLibrary) =
        some (i.tools.packer.toList :: i.libraryArguments.map (·.word env)) ↔
      IsBareWord i.project.library.dir.toList ∧ IsBareWord i.project.library.name.toList ∧
        IsBareText i.project.library.header ∧ IsBareText i.project.library.license ∧
        IsBareWord i.project.library.switch.toList ∧
        IsBareWord (i.generatedCode .win64).toList ∧ IsBareWord (i.generatedCode .sysV).toList) ∧
    (handed? env (i.command .packHeaders) =
        some (i.tools.packer.toList :: i.headerArguments.map (·.word env)) ↔
      IsBareText i.project.includes.dir) ∧
    (handed? env (i.command .runTest) =
        some (i.tools.runner.toList :: i.testArguments.map (·.word env)) ↔
      IsBareWord (i.buildDirectory ++ "/" ++ i.compiler).toList) := by
  have hreference : ∀ r : Reference, IsBareWord ((Argument.reference r).word env) := henv.bare
  have hvalue : ∀ text, IsBareWord ((Argument.value text).word env) ↔ IsBareWord text.toList :=
    fun _ => Iff.rfl
  refine ⟨?_, ?_, ?_⟩
  · rw [i.command_joinLibrary, handed?_commandLine henv hpacker rfl]
    simp +decide [Input.libraryArguments, isBareWord_below_iff henv, hreference, hvalue]
  · rw [i.command_packHeaders, handed?_commandLine henv hpacker rfl]
    simp +decide [Input.headerArguments, isBareWord_below_iff henv, hreference, hvalue]
  · rw [i.command_runTest, handed?_commandLine henv hrunner rfl]
    simp [Input.testArguments, hreference, hvalue]

namespace Sample

def values (name : String) : List Char :=
  if name = projectVariable then "../..".toList
  else if name = sourceVariable then "../../src".toList
  else "x".toList

/-- A project whose library has the given name. -/
def named (name : String) : Project :=
  { Generation.Sample.project with
    library := { Generation.Sample.project.library with name := name } }

/-- Its build graph with the given packer. -/
def namedInput (packer name : String) : Input :=
  Generation.inputFor (named name) ⟨"bin/gen", packer, "bin/run"⟩
    (Generation.Sample.inputs [] []) (Generation.Sample.toolchain .debug)

/-- The words of the command that makes the library, with those for its name. -/
def libraryWords (packer : String) (name : List String) : List (List Char) :=
  ([packer, "amalg", "--dir", "lib", "--name"] ++ name ++
    ["--header", "../../src/cc.h", "--license", "../../LICENSE", "--switch", "WIN",
      "--win", "gen.w.c", "--sysv", "gen.l.c", "x"]).map String.toList

theorem plainValues : PlainValues values where
  bare r := by cases r <;> decide
  without name := by
    unfold values
    split_ifs <;> decide

/-- The path of a tool may have blanks, and backslashes between its blanks. -/
theorem commands_reach_plain :
    PlainValues values ∧ IsToolPath "C:\\Program Files\\pack" ∧ IsToolPath "bin/run" ∧
      handed? values ((namedInput "C:\\Program Files\\pack" "cc").command .joinLibrary) =
        some (libraryWords "C:\\Program Files\\pack" ["cc"]) := by
  have hpacker : IsToolPath "C:\\Program Files\\pack" := by decide
  have hrunner : IsToolPath "bin/run" := by decide
  have hiff := commands_reach_iff (namedInput "C:\\Program Files\\pack" "cc") plainValues hpacker
    hrunner
  exact ⟨plainValues, hpacker, hrunner, hiff.1.mpr (by decide)⟩

/-- The name of a library is not put between quotes, and a dollar sign in the path of a tool is not
kept from the shell. -/
theorem commands_cut_at_blank :
    (named "my lib").check = .ok () ∧ PlainValues values ∧
      handed? values ((namedInput "bin/pack" "my lib").command .joinLibrary) =
        some (libraryWords "bin/pack" ["my", "lib"]) ∧
      handed? values ((namedInput "bin/pack" "my lib").command .joinLibrary) ≠
        some ("bin/pack".toList ::
          (namedInput "bin/pack" "my lib").libraryArguments.map (·.word values)) ∧
      (named "cc").check = .ok () ∧
      handed? values ((namedInput "/tmp/$x/pack" "cc").command .joinLibrary) = none := by
  have hcut : handed? values ((namedInput "bin/pack" "my lib").command .joinLibrary) =
      some (libraryWords "bin/pack" ["my", "lib"]) := by decide +kernel
  refine ⟨by decide +kernel, plainValues, hcut, ?_, by decide +kernel, by decide +kernel⟩
  rw [hcut]
  decide +kernel

end Sample

end BuildPlan.Graph
