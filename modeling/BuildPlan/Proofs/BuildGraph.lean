import BuildPlan.Graph.Manifest
import BuildPlan.Proofs.Lines
import BuildPlan.Proofs.Manifest

/-!
# What is in the manifest of a build graph

The manifest of a build graph has the rules and the edges of the graph, and it exists exactly if
these can be built (`exists_manifest_iff`). Its text tells the edges apart by their lines
(`render_eq_iff`), and its paths below the project are told apart from all others.
-/

namespace BuildPlan

open Ninja (Edge EscapedPath Manifest Rule)
open Relation (TransGen)

/-! ## Escaped paths -/

namespace Ninja

theorem flatMap_escape_injective {a b : List Char}
    (h : (a.flatMap fun c => if isSpecial c then ['$', c] else [c]) =
      b.flatMap fun c => if isSpecial c then ['$', c] else [c]) : a = b := by
  induction a generalizing b with
  | nil =>
    cases b with
    | nil => rfl
    | cons d b => cases hd : isSpecial d <;> simp [hd] at h
  | cons c a ih =>
    cases b with
    | nil => cases hc : isSpecial c <;> simp [hc] at h
    | cons d b =>
      -- a dollar sign is special itself, so it only stands in front of what it escapes
      have hdollar : isSpecial '$' = true := by decide
      cases hc : isSpecial c <;> cases hd : isSpecial d <;> simp [hc, hd] at h
      · rw [h.1, ih (by simpa using h.2)]
      · rw [h.1, hdollar] at hc
        cases hc
      · rw [← h.1, hdollar] at hd
        cases hd
      · rw [h.1, ih (by simpa using h.2)]

theorem escape_injective {a b : String} (h : escape a = escape b) : a = b := by
  have hlist := congrArg String.toList h
  rw [escape, escape, String.toList_ofList, String.toList_ofList] at hlist
  exact String.toList_inj.mp (flatMap_escape_injective hlist)

/-! ## Texts -/

theorem Manifest.lines_of_render {m : Manifest} {opening rest rest' : List Edge}
    (h : ({ m with edges := opening ++ rest } : Manifest).render =
      ({ m with edges := opening ++ rest' } : Manifest).render) :
    Text.unlines (rest.flatMap Edge.lines) = Text.unlines (rest'.flatMap Edge.lines) := by
  simp only [render, lines, List.flatMap_append, Text.unlines_append, String.append_assoc,
    String.append_right_inj] at h
  simpa only [← String.append_assoc, String.append_left_inj] using h

end Ninja

namespace Graph

theorem inProject_injective {a b : String} (h : inProject a = inProject b) : a = b := by
  have htext := congrArg EscapedPath.text h
  exact Ninja.escape_injective (by simpa [inProject, EscapedPath.below] using htext)

/-- No path below a directory that a variable holds is one in the build directory: behind a dollar
sign, an escaped path has a special character. -/
theorem below_ne_literal {var : String} (first : Char) (hvar : var.toList.head? = some first)
    (hfirst : Ninja.isSpecial first = false) (a b : String) :
    EscapedPath.below var a ≠ .literal b := by
  intro h
  obtain ⟨tail, hvar⟩ := List.head?_eq_some_iff.mp hvar
  have htext := congrArg (fun p => p.text.toList) h
  simp only [EscapedPath.below, EscapedPath.literal, Ninja.escape, String.toList_append,
    String.toList_ofList, hvar] at htext
  cases hb : b.toList with
  | nil => simp [hb] at htext
  | cons c rest =>
    rw [hb, List.flatMap_cons] at htext
    cases hc : Ninja.isSpecial c with
    | true =>
      simp [hc] at htext
      rw [← htext.1, hfirst] at hc
      cases hc
    | false =>
      simp [hc] at htext
      rw [← htext.1] at hc
      exact absurd hc (by decide)

theorem inProject_ne_literal (a b : String) : inProject a ≠ .literal b :=
  below_ne_literal 't' (by decide) (by decide) a b

theorem inSources_ne_literal (a b : String) : inSources a ≠ .literal b :=
  below_ne_literal 'r' (by decide) (by decide) a b

/-- The names of all rules, in the order in which they are declared. -/
def RuleName.all : List RuleName :=
  [compileSource, linkCompiler, compileTool, generateCode, joinLibrary, packHeaders, runTest,
    compileDriver, runDriver, regenerate]

theorem RuleName.text_injective {a b : RuleName} (h : a.text = b.text) : a = b := by
  cases a <;> cases b <;> first | rfl | exact absurd h (by decide)

/-! ## Manifests of graphs -/

namespace Input

variable {i j : Input} {m : Manifest}

theorem pushRules_eq_ok {rules : List Rule} (hnodup : ((m.rules ++ rules).map (·.name)).Nodup)
    (hphony : ∀ r ∈ rules, r.name ≠ Ninja.phony) :
    pushRules m rules = .ok { m with rules := m.rules ++ rules } := by
  induction rules generalizing m with
  | nil => rw [pushRules, List.append_nil]
  | cons r rules ih =>
    have hnew : m.declared? r.name = none := by
      rw [Manifest.declared?, List.find?_eq_none]
      intro r' hr' hname
      rw [List.map_append, List.nodup_append] at hnodup
      exact hnodup.2.2 _ (List.mem_map_of_mem hr') _ (by simp) (eq_of_beq hname)
    have hr : m.pushRule r = .ok { m with rules := m.rules ++ [r] } := by
      rw [Manifest.pushRule, if_neg]
      simp [hnew, hphony r List.mem_cons_self]
    have hrest := ih (m := { m with rules := m.rules ++ [r] }) (by simpa using hnodup)
      fun r' hr' => hphony r' (List.mem_cons_of_mem r hr')
    rw [pushRules, hr]
    simpa using hrest

theorem rules_names (i : Input) : i.rules.map (·.name) = RuleName.all.map RuleName.text := rfl

/-- The manifest of a graph before its edges. -/
def ruled (i : Input) : Manifest := { i.preamble with rules := i.rules }

/-- The manifest of a graph that has the given edges. -/
def manifestOf (i : Input) (edges : List Edge) : Manifest :=
  { i.ruled with edges := edges, defaults := [.literal i.compiler] }

theorem pushRules_rules (i : Input) : pushRules i.preamble i.rules = .ok i.ruled := by
  refine pushRules_eq_ok ?_ ?_
  · rw [show i.preamble.rules = [] from rfl, List.nil_append, rules_names]
    decide
  · intro r hr hname
    have hmem := List.mem_map_of_mem (f := (·.name)) hr
    rw [rules_names, hname] at hmem
    exact absurd hmem (by decide)

theorem pushEdges_ok {dir : String} {m' : Manifest} {es : List (Except Project.Flaw Edge)}
    (hnodup : (Manifest.outputs m.edges).Nodup) (h : pushEdges dir m es = .ok m') :
    ∃ added : List Edge, es = added.map .ok ∧ (∀ e ∈ added, e.outputs ≠ []) ∧
      (Manifest.outputs (m.edges ++ added)).Nodup ∧ m' = { m with edges := m.edges ++ added } := by
  induction es generalizing m with
  | nil =>
    obtain rfl := Except.ok.inj h
    exact ⟨[], rfl, by simp, by simpa using hnodup, by simp⟩
  | cons first es ih =>
    cases first with
    | error flaw => cases h
    | ok e =>
      rw [pushEdges] at h
      split at h
      · cases h
      · rename_i m₁ hpushed
        obtain ⟨houtputs, hclash, rfl⟩ := Manifest.pushEdge_eq_ok_iff.mp hpushed
        obtain ⟨added, rfl, hadded, hnodup', rfl⟩ :=
          ih (Manifest.outputs_nodup_append.mpr ⟨hnodup, hclash⟩) h
        refine ⟨e :: added, rfl, ?_, ?_, ?_⟩
        · simpa [houtputs] using hadded
        · simpa using hnodup'
        · simp

theorem pushEdges_map_ok (dir : String) {added : List Edge} (houtputs : ∀ e ∈ added, e.outputs ≠ [])
    (hnodup : (Manifest.outputs (m.edges ++ added)).Nodup) :
    pushEdges dir m (added.map .ok) = .ok { m with edges := m.edges ++ added } := by
  induction added generalizing m with
  | nil => simp [pushEdges]
  | cons e added ih =>
    have hfirst : (Manifest.outputs (m.edges ++ [e])).Nodup := by
      rw [List.append_cons, Manifest.outputs_append] at hnodup
      exact (List.nodup_append.mp hnodup).1
    have hpushed := Manifest.pushEdge_eq_ok_iff.mpr
      ⟨houtputs e List.mem_cons_self, (Manifest.outputs_nodup_append.mp hfirst).2, rfl⟩
    have hrest := ih (m := { m with edges := m.edges ++ [e] })
      (fun e' he' => houtputs e' (List.mem_cons_of_mem e he')) (by simpa using hnodup)
    rw [List.map_cons, pushEdges, hpushed]
    simpa using hrest

theorem pushEdges_map_error (dir : String) {added : List Edge}
    (houtputs : ∀ e ∈ added, e.outputs ≠ [])
    (hnodup : (Manifest.outputs m.edges).Nodup)
    (hclash : ¬ (Manifest.outputs (m.edges ++ added)).Nodup) :
    ∃ path first second, pushEdges dir m (added.map .ok) =
      .error (.manifest dir (.outputTwice path first second)) := by
  induction added generalizing m with
  | nil => exact absurd (by simpa using hnodup) hclash
  | cons e added ih =>
    obtain ⟨he, hadded⟩ := List.forall_mem_cons.mp houtputs
    rw [List.map_cons, pushEdges]
    cases hfirst : Ninja.clash? m.edges e with
    | some reason =>
      obtain ⟨path, first, second, rfl⟩ := Manifest.clashFrom_eq_some hfirst
      refine ⟨path, first, second, ?_⟩
      rw [Manifest.pushEdge, if_neg (by simpa using he), hfirst]
    | none =>
      rw [Manifest.pushEdge_eq_ok_iff.mpr ⟨he, hfirst, rfl⟩]
      exact ih (m := { m with edges := m.edges ++ [e] }) hadded
        (Manifest.outputs_nodup_append.mpr ⟨hnodup, hfirst⟩) (by simpa using hclash)

theorem assemble_eq_ok_iff :
    i.assemble = .ok m ↔
      ∃ edges : List Edge, i.edges = edges.map .ok ∧ (∀ e ∈ edges, e.outputs ≠ []) ∧
        (Manifest.outputs edges).Nodup ∧ m = i.manifestOf edges := by
  unfold assemble
  rw [pushRules_rules]
  constructor
  · intro h
    dsimp only at h
    split at h
    · cases h
    · rename_i pushed hpushed
      obtain ⟨edges, hedges, houtputs, hnodup, rfl⟩ :=
        pushEdges_ok (m := i.ruled) List.nodup_nil hpushed
      exact ⟨edges, hedges, houtputs, hnodup, (Except.ok.inj h).symm⟩
  · rintro ⟨edges, hedges, houtputs, hnodup, rfl⟩
    have hpushed := pushEdges_map_ok (m := i.ruled) i.buildDirectory houtputs hnodup
    rw [hedges]
    simp only [hpushed]
    rfl

/-- **The manifest of a graph has its rules and its edges**, and is there exactly if it can be
built. -/
theorem manifest_eq_ok_iff :
    i.manifest = .ok m ↔
      ∃ edges : List Edge, i.edges = edges.map .ok ∧ (∀ e ∈ edges, e.outputs ≠ []) ∧
        (Manifest.outputs edges).Nodup ∧ (i.manifestOf edges).check = .ok () ∧
        m = i.manifestOf edges := by
  unfold manifest
  constructor
  · intro h
    split at h
    · cases h
    · rename_i m' hm'
      split at h
      · cases h
      · rename_i hcheck
        obtain rfl := Except.ok.inj h
        obtain ⟨edges, hedges, houtputs, hnodup, rfl⟩ := assemble_eq_ok_iff.mp hm'
        exact ⟨edges, hedges, houtputs, hnodup, hcheck, rfl⟩
  · rintro ⟨edges, hedges, houtputs, hnodup, hcheck, rfl⟩
    rw [assemble_eq_ok_iff.mpr ⟨edges, hedges, houtputs, hnodup, rfl⟩]
    simp only [hcheck]

theorem manifest_eq_ok_of_rank {α : Type} [Preorder α] {edges : List Edge} (rank : Edge → α)
    (hedges : i.edges = edges.map .ok) (houtputs : ∀ e ∈ edges, e.outputs ≠ [])
    (hnodup : (Manifest.outputs edges).Nodup)
    (hrules : ∀ e ∈ edges, e.rule = Ninja.phony ∨ e.rule ∈ RuleName.all.map RuleName.text)
    (hcompiler : .literal i.compiler ∈ Manifest.outputs edges)
    (hrank : ∀ writer ∈ edges, ∀ reader ∈ edges, ∀ p ∈ writer.outputs, p ∈ reader.reads →
      rank writer < rank reader) :
    i.manifest = .ok (i.manifestOf edges) := by
  refine manifest_eq_ok_iff.mpr ⟨edges, hedges, houtputs, hnodup, ?_, rfl⟩
  refine (Manifest.check_eq_ok_iff hnodup).mpr ⟨fun e he => ?_, fun p hp => ?_, ?_⟩
  · refine (hrules e he).imp_right fun hrule => ?_
    rw [← rules_names i] at hrule
    exact List.mem_map.mp hrule
  · obtain rfl := List.mem_singleton.mp hp
    exact Manifest.mem_outputs.mp hcompiler
  · exact Manifest.not_feeds_self_of_rank rank hrank

/-- A graph fails for the outputs of its edges where two of them have the same path. -/
theorem manifest_eq_error_of_clash {edges : List Edge} (hedges : i.edges = edges.map .ok)
    (houtputs : ∀ e ∈ edges, e.outputs ≠ []) (hclash : ¬ (Manifest.outputs edges).Nodup) :
    ∃ path first second,
      i.manifest = .error (.manifest i.buildDirectory (.outputTwice path first second)) := by
  obtain ⟨path, first, second, hpushed⟩ :=
    pushEdges_map_error (m := i.ruled) i.buildDirectory houtputs List.nodup_nil hclash
  refine ⟨path, first, second, ?_⟩
  unfold manifest assemble
  rw [pushRules_rules, hedges]
  simp only [hpushed]

/-! ## The edges -/

/-- The edges before the tests: those that build the compiler and the library. -/
def openingEdges (i : Input) : List (Except Project.Flaw Edge) :=
  i.codegenEdges.map .ok ++ [.ok i.hostEdge] ++ i.sourceEdgesFrom i.project.sources ++
  [.ok i.headerEdge, i.libraryEdge, .ok i.libraryObjectEdge, .ok i.linkEdge, .ok i.toolEdge]

/-- The edges of the tests, and that of the manifest itself. -/
def closingEdges (i : Input) : List Edge :=
  i.fixtures.map (i.testEdge true) ++ i.fuzzCases.map (i.testEdge false) ++
    i.scenarios.flatMap i.scenarioEdges ++ [i.allTestsEdge, i.regenEdge]

theorem edges_eq (i : Input) : i.edges = i.openingEdges ++ i.closingEdges.map .ok := rfl

theorem rule_of_mem_sourceEdgesFrom {sources : List Project.Source} {e : Edge}
    (h : .ok e ∈ i.sourceEdgesFrom sources) : e.rule = RuleName.compileSource.text := by
  induction sources with
  | nil => cases h
  | cons s sources ih =>
    rw [sourceEdgesFrom] at h
    split at h
    · exact ih (List.mem_of_ne_of_mem (by simp) h)
    · split_ifs at h
      · rcases List.mem_cons.mp h with h | h
        · rw [Except.ok.inj h]
          rfl
        · exact ih h
      · exact ih h

theorem edges_toolchain (i : Input) (tc : Toolchain) (dir : String)
    (hplatform : tc.platform = i.toolchain.platform)
    (hfuzzes : tc.profile.fuzzes = i.toolchain.profile.fuzzes) :
    ({ i with toolchain := tc, buildDirectory := dir } : Input).edges = i.edges := by
  obtain ⟨platform, profile, commands⟩ := tc
  dsimp only at hplatform hfuzzes
  subst hplatform
  set i' : Input := { i with toolchain := ⟨i.toolchain.platform, profile, commands⟩,
                             buildDirectory := dir } with hi'
  have htakes : i'.takes = i.takes := by
    funext v
    cases v with
    | none => rfl
    | some v => simp only [takes, hi', hfuzzes]
  have hsources : ∀ sources, i'.sourceEdgesFrom sources = i.sourceEdgesFrom sources := by
    intro sources
    induction sources with
    | nil => rfl
    | cons s sources ih => 
      simp only [sourceEdgesFrom, htakes, ih]
      rfl
  have hobjects : i'.objects = i.objects := by
    simp only [objects, compiledSources, htakes]
    rfl
  unfold edges linkEdge
  rw [hsources, hobjects]
  rfl

theorem regenEdge_mem_edges (i : Input) : .ok i.regenEdge ∈ i.edges := by
  simp [edges]

theorem eq_regenEdge {e : Edge} (h : .ok e ∈ i.edges)
    (hrule : e.rule = RuleName.regenerate.text) : e = i.regenEdge := by
  simp only [edges, List.mem_append, List.mem_cons, List.mem_map, List.not_mem_nil, or_false,
    Except.ok.injEq, exists_eq_right, List.mem_flatMap] at h
  have hother : ∀ name : RuleName, name ≠ .regenerate → e.rule ≠ name.text := fun name hname he =>
    hname (RuleName.text_injective (he.symm.trans hrule))
  rcases h with (((h | rfl) | h) | rfl | h | rfl | rfl | rfl) |
    ((⟨test, -, rfl⟩ | ⟨test, -, rfl⟩) | ⟨s, -, h⟩) | rfl | h
  · obtain ⟨abi, -, rfl⟩ := List.mem_map.mp h
    exact absurd rfl (hother .generateCode (by decide))
  · exact absurd rfl (hother .compileSource (by decide))
  · exact absurd (rule_of_mem_sourceEdgesFrom h) (hother .compileSource (by decide))
  · exact absurd rfl (hother .packHeaders (by decide))
  · rw [libraryEdge] at h
    split at h
    · cases h
    · obtain rfl := Except.ok.inj h
      exact absurd rfl (hother .joinLibrary (by decide))
  · exact absurd rfl (hother .compileSource (by decide))
  · exact absurd rfl (hother .linkCompiler (by decide))
  · exact absurd rfl (hother .compileTool (by decide))
  · exact absurd rfl (hother .runTest (by decide))
  · exact absurd rfl (hother .runTest (by decide))
  · simp only [scenarioEdges, List.mem_cons, List.not_mem_nil, or_false] at h
    rcases h with rfl | rfl
    · exact absurd rfl (hother .compileDriver (by decide))
    · exact absurd rfl (hother .runDriver (by decide))
  · exact absurd hrule (show Ninja.phony ≠ RuleName.regenerate.text by decide)
  · exact h

end Input

end Graph

end BuildPlan
