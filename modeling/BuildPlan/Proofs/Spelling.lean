import BuildPlan.Proofs.Closure
import BuildPlan.Proofs.Placement
import BuildPlan.Proofs.Regeneration

/-!
# Spellings of outputs

A manifest tells its outputs apart by their texts, so two spellings of one file count as two
outputs. A path without idle parts is the only such spelling of its file (`eq_of_sameFile`), and an
output is free of them where the configured text that names it is (`isPlain_of_named`). So a file
has one writer unless a name with an idle part was configured for it (`one_writer_per_file`).
-/

namespace BuildPlan

namespace Text

theorem splitLast_eq_some {sep : Char} {cs before after : List Char}
    (h : splitLast sep cs = some (before, after)) : cs = before ++ sep :: after := by
  induction cs generalizing before with
  | nil => cases h
  | cons c cs ih =>
    rw [splitLast] at h
    split at h
    · rename_i b a hrest
      obtain ⟨rfl, rfl⟩ := Prod.mk.inj (Option.some.inj h)
      rw [ih hrest]
      rfl
    · split at h
      · rename_i hc
        obtain ⟨rfl, rfl⟩ := Prod.mk.inj (Option.some.inj h)
        rw [hc]
        rfl
      · cases h

end Text

namespace Path

open Text (split)

/-! ## Plain spellings -/

/-- Two relative paths that lead to the same file by their form. -/
def SameFile (path other : String) : Prop :=
  (components path).filter (· != .current) = (components other).filter (· != .current)

instance (path other : String) : Decidable (SameFile path other) :=
  inferInstanceAs (Decidable (_ = _))

/-- A path without idle parts: no `.`, no repeated slash, and no slash at an end. -/
def IsPlain (path : String) : Prop :=
  ∀ part ∈ split '/' path.toList, isIdle part = false

instance (path : String) : Decidable (IsPlain path) :=
  inferInstanceAs (Decidable (∀ part ∈ _, _))

theorem componentOf_injective : Function.Injective componentOf := by
  intro part other h
  rw [componentOf, componentOf] at h
  split_ifs at h with hpart hother hother
  · rw [hpart, hother]
  · exact String.ofList_injective (Component.name.inj h)

theorem filter_components {path : String} (h : isAbsolute path = false) :
    (components path).filter (· != .current) = steps path := by
  have hlead : (lead path).filter (· != .current) = [] := by
    rw [lead, h, if_neg Bool.false_ne_true]
    split_ifs <;> rfl
  have hsteps : (steps path).filter (· != .current) = steps path := by
    rw [List.filter_eq_self]
    intro c hc
    have hstep := isStep_of_mem_steps hc
    cases c with
    | current => exact hstep.elim
    | _ => rfl
  rw [components_eq, List.filter_append, hlead, hsteps, List.nil_append]

theorem eq_of_sameFile {path other : String} (hpath : isAbsolute path = false)
    (hother : isAbsolute other = false) (h : SameFile path other) (hplain : IsPlain path)
    (hplain' : IsPlain other) : path = other := by
  have hall : ∀ {path : String}, IsPlain path →
      steps path = (split '/' path.toList).map componentOf := by
    intro path hplain
    rw [steps, stepsOf, List.filter_eq_self.mpr fun part hpart => by simp [hplain part hpart]]
  rw [SameFile, filter_components hpath, filter_components hother, hall hplain, hall hplain'] at h
  have hparts := List.map_injective_iff.mpr componentOf_injective h
  exact String.toList_inj.mp (Text.split_injective '/' hparts)

/-! ## Plain paths put together -/

theorem isPlain_below_iff {dir name : String} :
    IsPlain (dir ++ "/" ++ name) ↔ IsPlain dir ∧ IsPlain name := by
  rw [IsPlain, String.toList_append, String.toList_append, show "/".toList = ['/'] from rfl,
    List.append_assoc, List.singleton_append, Text.split_append_sep]
  exact List.forall_mem_append

theorem IsName.isPlain {name : String} (h : IsName name) : IsPlain name := by
  rw [IsPlain, Text.split_of_notMem h.2.2]
  simpa using h.1

/-- What stands at the end of the last part may be exchanged. -/
theorem isPlain_exchange {cs tail tail' : List Char} (h : IsPlain (String.ofList (cs ++ tail)))
    (htail : '/' ∉ tail) (htail' : '/' ∉ tail') (hlength : 2 ≤ tail'.length) :
    IsPlain (String.ofList (cs ++ tail')) := by
  obtain ⟨front, last, hsplit⟩ := Text.split_append_of_notMem '/' cs
  rw [IsPlain, String.toList_ofList, hsplit _ htail] at h
  rw [IsPlain, String.toList_ofList, hsplit _ htail']
  intro part hpart
  rcases List.mem_append.mp hpart with hpart | hpart
  · exact h part (List.mem_append_left _ hpart)
  · obtain rfl := List.mem_singleton.mp hpart
    have hlong : 2 ≤ (last ++ tail').length := by
      rw [List.length_append]
      omega
    rw [isIdle, Bool.or_eq_false_iff, beq_eq_false_iff_ne, beq_eq_false_iff_ne]
    constructor <;>
    · intro hidle
      rw [hidle] at hlong
      exact absurd hlong (by decide)

theorem IsPlain.append {path tail : String} (h : IsPlain path) (htail : '/' ∉ tail.toList)
    (hlength : 2 ≤ tail.toList.length) : IsPlain (path ++ tail) := by
  have hempty : IsPlain (String.ofList (path.toList ++ [])) := by
    rwa [List.append_nil, String.ofList_toList]
  have happend := isPlain_exchange hempty List.not_mem_nil htail hlength
  rwa [← String.toList_append, String.ofList_toList] at happend

theorem IsPlain.program {name : String} (h : IsPlain name) (tc : Toolchain) :
    IsPlain (tc.program name) := by
  rw [Toolchain.program]
  cases tc.platform with
  | linux => rwa [show Platform.programSuffix .linux = "" from rfl, String.append_empty]
  | windows => exact h.append (by decide) (by decide)

theorem objectSuffix_long (platform : Platform) :
    '/' ∉ platform.objectSuffix.toList ∧ 2 ≤ platform.objectSuffix.toList.length := by
  cases platform <;> decide

theorem IsPlain.objectOf {source : String} (h : IsPlain source) (tc : Toolchain) :
    IsPlain (tc.objectOf source) := by
  obtain ⟨hslash, hlength⟩ := objectSuffix_long tc.platform
  rw [Toolchain.objectOf, Toolchain.stem]
  split
  · rename_i before after hcut
    split_ifs with hafter
    · exact h.append hslash hlength
    · -- the ending of the last part makes room for the suffix
      have hsource : source = String.ofList (before ++ '.' :: after) := by
        rw [← Text.splitLast_eq_some hcut, String.ofList_toList]
      have hending : '/' ∉ '.' :: after := by simpa using hafter
      have hobject := isPlain_exchange (hsource ▸ h) hending hslash hlength
      rwa [← String.toList_ofList (l := before), ← String.toList_append, String.ofList_toList]
        at hobject
  · exact h.append hslash hlength

end Path

/-! ## The names that outputs are made from -/

namespace Graph.Input

open BuildPlan.Path (IsName IsPlain)

variable {i : Input}

/-- The outputs that a graph declares, each with the text that it takes its spelling from: a path or
name of the project, or the name of a script. -/
def namedOutputs (i : Input) : List (String × String) :=
  Abi.all.map (fun abi => (i.generatedCode abi, i.project.codegen.output)) ++
  [(i.hostObject, i.project.codegen.output)] ++
  i.compiledSources.map (fun s => (i.toolchain.objectOf s.path, s.path)) ++
  [(i.project.includes.output, i.project.includes.output),
    (i.librarySource, i.project.library.dir ++ "/" ++ i.project.library.name),
    (i.libraryHeader, i.project.library.dir ++ "/" ++ i.project.library.name),
    (i.libraryLicense, i.project.library.dir), (i.libraryObject, i.project.library.name),
    (i.compiler, i.project.general.name), (i.assemblerTool, i.project.codegen.toolStem)] ++
  i.fixtures.map (fun t => (t.path, i.project.tests.dir)) ++
  i.fuzzCases.map (fun t => (t.path, i.project.tests.fuzz.getD "")) ++
  i.scenarios.flatMap (fun s =>
    [(i.driverProgram s, s.scriptName), (s.script, i.project.tests.dir)]) ++
  [(allTests, allTests), (manifestFile, manifestFile)]

theorem declaredOutputs_eq (i : Input) :
    i.declaredOutputs = i.namedOutputs.map fun o => .literal o.1 := by
  simp [declaredOutputs, namedOutputs, List.map_flatMap, Function.comp_def]

/-- The tests of a graph are files of the test directories, under names of their own. -/
structure Discovered (i : Input) : Prop where
  fixtures : ∀ t ∈ i.fixtures, ∃ name, IsName name ∧ t.path = i.project.tests.dir ++ "/" ++ name
  fuzzCases : ∀ t ∈ i.fuzzCases, ∃ dir name, i.project.tests.fuzz = some dir ∧ IsName name ∧
    t.path = dir ++ "/" ++ name
  scenarios : ∀ s ∈ i.scenarios, IsName s.scriptName ∧
    s.script = i.project.tests.dir ++ "/" ++ s.scriptName

theorem isPlain_generatedCode (h : IsPlain i.project.codegen.output) (abi : Abi) :
    IsPlain (i.generatedCode abi) := by
  rw [generatedCode, String.append_assoc, String.append_assoc]
  cases abi <;> exact h.append (by decide) (by decide)

theorem isPlain_of_named (hfound : i.Discovered) {o : String × String} (h : o ∈ i.namedOutputs)
    (hname : IsPlain o.2) : IsPlain o.1 := by
  have hbelow : ∀ {dir name path : String}, IsName name → path = dir ++ "/" ++ name →
      IsPlain dir → IsPlain path := fun hname hpath hdir =>
    hpath ▸ Path.isPlain_below_iff.mpr ⟨hdir, hname.isPlain⟩
  simp only [namedOutputs, List.mem_append, List.mem_map, List.mem_flatMap, List.mem_cons,
    List.not_mem_nil, or_false] at h
  rcases h with ((((((⟨abi, -, rfl⟩ | rfl) | ⟨s, -, rfl⟩) | h) | ⟨t, ht, rfl⟩) | ⟨t, ht, rfl⟩) |
    ⟨s, hs, rfl | rfl⟩) | rfl | rfl
  · exact isPlain_generatedCode hname abi
  · exact (isPlain_generatedCode hname _).objectOf i.toolchain
  · exact hname.objectOf i.toolchain
  · rcases h with rfl | rfl | rfl | rfl | rfl | rfl | rfl
    · exact hname
    · exact hname.append (by decide) (by decide)
    · exact hname.append (by decide) (by decide)
    · have hlicense : i.libraryLicense = i.project.library.dir ++ "/" ++ "LICENSE" := by
        rw [libraryLicense, String.append_assoc]
        rfl
      exact hbelow (by decide) hlicense hname
    · exact hname.append (Path.objectSuffix_long _).1 (Path.objectSuffix_long _).2
    · exact hname.program i.toolchain
    · exact hname.program i.toolchain
  · obtain ⟨name, hisName, hpath⟩ := hfound.fixtures t ht
    exact hbelow hisName hpath hname
  · obtain ⟨dir, name, hdir, hisName, hpath⟩ := hfound.fuzzCases t ht
    rw [hdir] at hname
    exact hbelow hisName hpath hname
  · have hdriver : IsPlain (s.scriptName ++ ".driver") := hname.append (by decide) (by decide)
    exact hdriver.program i.toolchain
  · obtain ⟨hisName, hpath⟩ := hfound.scenarios s hs
    exact hbelow hisName hpath hname
  · exact hname
  · exact hname

end Graph.Input

/-! ## One writer for a file -/

namespace Generation

open Ninja (Manifest)
open BuildPlan.Path (IsName IsPlain SameFile isAbsolute)

section Discovery

variable {t : FileTree} {root : String} {p : Project} {platform : Platform} {tools : ToolPaths}
  {inputs : Inputs} {toolchain : Toolchain} {m : Manifest}

theorem collect_congr {q : Project} (t : FileTree) (root : String) (platform : Platform)
    (hincludes : p.includes = q.includes) (htests : p.tests = q.tests) :
    Inputs.collect t root p platform = Inputs.collect t root q platform := by
  unfold Inputs.collect Inputs.watched Inputs.fuzzCasesFor Inputs.scenariosOf
  rw [hincludes, htests]

theorem exists_of_mem_fuzzCases (ht : t.WellNamed) {cases : List TestCase}
    (h : Inputs.fuzzCasesFor t root p platform = .ok cases) {c : TestCase} (hc : c ∈ cases) :
    ∃ dir name, p.tests.fuzz = some dir ∧ IsName name ∧ c.path = dir ++ "/" ++ name := by
  obtain ⟨dir, paths, path, hfuzz, hpaths, hpath, rfl⟩ :=
    Project.Tests.exists_of_mem_fuzzInputs (Inputs.fuzzInputs_of_mem_fuzzCasesFor h hc) hc
  obtain ⟨name, hname, hbelow⟩ := Project.Tests.exists_of_mem_filesIn ht hpaths hpath
  exact ⟨dir, name, hfuzz, hname, hbelow⟩

theorem discovered (ht : t.WellNamed) (hinputs : Inputs.collect t root p platform = .ok inputs) :
    (inputFor p tools inputs toolchain).Discovered := by
  obtain ⟨-, -, hfixtures, hfuzz, hscenarios, -⟩ := Inputs.collect_eq_ok_iff.mp hinputs
  refine ⟨fun f hf => ?_, fun c hc => ?_, fun s hs => Inputs.script_below ht hscenarios hs⟩
  · obtain ⟨_, _, hpaths, hpath, -⟩ := Project.Tests.exists_of_mem_enabledFixtures hfixtures hf
    exact Project.Tests.exists_of_mem_filesIn ht hpaths hpath
  · have hcase : c ∈ inputs.fuzzCases := by
      simp only [inputFor] at hc
      split_ifs at hc
      · exact hc
      · cases hc
    exact exists_of_mem_fuzzCases ht hfuzz hcase

/-- **A file has one writer, unless its name was configured with an idle part.** The outputs of a
manifest are spelled from paths and names of the project and from names of scripts. Two outputs that
lead to the same file are one, and so are their edges, where what they are spelled from has no idle
part. -/
theorem one_writer_per_file (ht : t.WellNamed) (hcheck : p.check = .ok ())
    (hinputs : Inputs.collect t root p platform = .ok inputs)
    (hm : (inputFor p tools inputs toolchain).manifest = .ok m) :
    Manifest.outputs m.edges =
        (inputFor p tools inputs toolchain).namedOutputs.map (fun o => .literal o.1) ∧
      ∀ o ∈ (inputFor p tools inputs toolchain).namedOutputs,
        ∀ o' ∈ (inputFor p tools inputs toolchain).namedOutputs,
          isAbsolute o.1 = false → isAbsolute o'.1 = false → SameFile o.1 o'.1 →
          IsPlain o.2 → IsPlain o'.2 → o.1 = o'.1 ∧ ∀ e ∈ m.edges, ∀ e' ∈ m.edges,
            .literal o.1 ∈ e.outputs → .literal o'.1 ∈ e'.outputs → e = e' := by
  obtain ⟨library, -, hlibrary, hnodup, -, rfl⟩ := Graph.Input.exists_soundEdges hcheck hm
  refine ⟨(Graph.Input.outputs_soundEdges hlibrary).trans (Graph.Input.declaredOutputs_eq _), ?_⟩
  intro o ho o' ho' hrel hrel' hsame hname hname'
  have hfound : (inputFor p tools inputs toolchain).Discovered := discovered ht hinputs
  have hplain := Graph.Input.isPlain_of_named hfound ho hname
  have hplain' := Graph.Input.isPlain_of_named hfound ho' hname'
  have hpath := Path.eq_of_sameFile hrel hrel' hsame hplain hplain'
  refine ⟨hpath, fun e he e' he' hout hout' => ?_⟩
  rw [← hpath] at hout'
  exact Manifest.eq_of_mem_outputs hnodup he he' hout hout'

end Discovery

namespace Sample

/-- A project with two sources, the second one at the given path. -/
def spelled (second : String) : Project :=
  { project with sources := [⟨"a.c", none⟩, ⟨second, none⟩] }

def spelledGraph (second : String) : Graph.Input :=
  inputFor (spelled second) tools (inputs ["test"] []) (toolchain .debug)

theorem collect_spelled (second : String) :
    Inputs.collect original "p" (spelled second) .windows = .ok (inputs ["test"] []) := by
  have hsame : (spelled second).includes = project.includes ∧
      (spelled second).tests = project.tests := ⟨rfl, rfl⟩
  rw [collect_congr original "p" .windows hsame.1 hsame.2, collect_original]

/-- Where everything is spelled plainly, different outputs are different files. -/
theorem one_writer_per_file_plain :
    ∃ m, (spelledGraph "b.c").manifest = .ok m ∧ ∀ o ∈ (spelledGraph "b.c").namedOutputs,
      ∀ o' ∈ (spelledGraph "b.c").namedOutputs, SameFile o.1 o'.1 → o.1 = o'.1 := by
  have hcheck : (spelled "b.c").check = .ok () := by decide +kernel
  obtain ⟨m, hm, -⟩ := Graph.Input.exists_manifest_of_nodup (i := spelledGraph "b.c") hcheck
    (by decide +kernel) (by decide +kernel) (by decide +kernel)
  have hplain : ∀ o ∈ (spelledGraph "b.c").namedOutputs, isAbsolute o.1 = false ∧ IsPlain o.2 := by
    decide +kernel
  have hone := (one_writer_per_file original_wellNamed hcheck (collect_spelled "b.c") hm).2
  refine ⟨m, hm, fun o ho o' ho' hsame => ?_⟩
  exact (hone o ho o' ho' (hplain o ho).1 (hplain o' ho').1 hsame (hplain o ho).2
    (hplain o' ho').2).1

/-- A source that is listed under two spellings is compiled twice to one object. -/
theorem two_writers_spelled :
    (spelled "./a.c").check = .ok () ∧
      Inputs.collect original "p" (spelled "./a.c") .windows = .ok (inputs ["test"] []) ∧
      ∃ m, (spelledGraph "./a.c").manifest = .ok m ∧
        .literal "a.obj" ∈ Manifest.outputs m.edges ∧
        .literal "./a.obj" ∈ Manifest.outputs m.edges ∧ "a.obj" ≠ "./a.obj" ∧
        isAbsolute "a.obj" = false ∧ isAbsolute "./a.obj" = false ∧
        SameFile "a.obj" "./a.obj" := by
  have hcheck : (spelled "./a.c").check = .ok () := by decide +kernel
  obtain ⟨m, hm, houtputs⟩ := Graph.Input.exists_manifest_of_nodup (i := spelledGraph "./a.c")
    hcheck (by decide +kernel) (by decide +kernel) (by decide +kernel)
  refine ⟨hcheck, collect_spelled "./a.c", m, hm, ?_⟩
  rw [houtputs]
  decide +kernel

end Sample

end Generation

end BuildPlan
