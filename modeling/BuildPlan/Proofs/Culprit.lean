import BuildPlan.Proofs.Index

/-!
# What a manifest is refused for

A manifest that does not pass its check is refused for its first flaw, and the flaw is where the
error says: the first edge with an undeclared rule, else the first default target that nothing
writes, else an edge that leads back to itself. An edge that only depends on a cycle, or that a
cycle depends on, is never named (`check_made_error`).
-/

namespace BuildPlan.Ninja

open Relation (TransGen)

/-- The first member of a list with a property. -/
def IsFirst {α : Type} (P : α → Prop) (l : List α) (a : α) : Prop :=
  P a ∧ ∃ before after, l = before ++ a :: after ∧ ∀ b ∈ before, ¬ P b

theorem find?_eq_some_iff_isFirst {α : Type} {P : α → Prop} {test : α → Bool}
    (htest : ∀ a, test a = true ↔ P a) {l : List α} {a : α} :
    l.find? test = some a ↔ IsFirst P l a := by
  simp only [List.find?_eq_some_iff_append, IsFirst, ← htest, Bool.not_eq_true,
    Bool.not_eq_eq_eq_not, Bool.not_true]

namespace Manifest

variable {m : Manifest} {reason : ManifestError}

/-- The edge uses a rule that is neither `phony` nor declared. -/
def Undeclared (m : Manifest) (e : Edge) : Prop :=
  e.rule ≠ phony ∧ ∀ r ∈ m.rules, r.name ≠ e.rule

/-- No edge writes the path. -/
def Unwritten (m : Manifest) (p : EscapedPath) : Prop :=
  ∀ e ∈ m.edges, p ∉ e.outputs

theorem not_knowsRule_iff {e : Edge} : (!m.knowsRule e.rule) = true ↔ m.Undeclared e := by
  rw [Bool.not_eq_true', ← Bool.not_eq_true, knowsRule_iff, Undeclared]
  push Not
  rfl

theorem not_undeclared_iff {e : Edge} :
    ¬ m.Undeclared e ↔ e.rule = phony ∨ ∃ r ∈ m.rules, r.name = e.rule := by
  rw [← not_knowsRule_iff, ← knowsRule_iff, Bool.not_eq_true', Bool.not_eq_false]

theorem producer?_isNone_iff {p : EscapedPath} :
    (m.producer? p).isNone = true ↔ m.Unwritten p := by
  rw [Option.isNone_iff_eq_none, producer?, writer?_eq_none_iff, mem_outputs, Unwritten]
  push Not
  rfl

theorem checkEdges_eq_error_iff (h : (outputs m.edges).Nodup) :
    m.checkEdges [] m.edges = .error reason ↔
      ∃ e, IsFirst m.Undeclared m.edges e ∧ reason = .undeclaredRule e.rule e.firstOutput := by
  rw [checkEdges_eq m [] m.edges h]
  simp only [← find?_eq_some_iff_isFirst (fun _ => not_knowsRule_iff)]
  cases m.edges.find? fun e => !m.knowsRule e.rule with
  | none => simp
  | some e => simp [eq_comm]

theorem checkDefaults_eq_error_iff :
    m.checkDefaults m.defaults = .error reason ↔
      ∃ p, IsFirst m.Unwritten m.defaults p ∧ reason = .unwrittenDefault p.text := by
  rw [checkDefaults_eq]
  simp only [← find?_eq_some_iff_isFirst (fun _ => producer?_isNone_iff)]
  cases m.defaults.find? fun p => (m.producer? p).isNone with
  | none => simp
  | some p => simp [eq_comm]

theorem exists_of_checkCycles_error (h : (outputs m.edges).Nodup)
    (herror : m.checkCycles = .error reason) :
    ∃ n e, m.edges[n]? = some e ∧ TransGen m.Feeds n n ∧ reason = .cycle e.firstOutput := by
  rw [checkCycles] at herror
  cases hn : m.dependencies.cycleNode? with
  | none =>
    rw [hn] at herror
    cases herror
  | some n =>
    rw [hn] at herror
    cases herror
    obtain ⟨hsize, hcycle⟩ := Digraph.cycleNode?_sound (dependencies_closed h) hn
    have hedge : m.edges[n]? = some m.edges[n] := List.getElem?_eq_getElem hsize
    rw [arc_eq_feeds h] at hcycle
    exact ⟨n, m.edges[n], hedge, hcycle, by rw [hedge]; rfl⟩

/-- The edges are checked first, then the default targets, then the cycles. -/
theorem check_eq_error_iff :
    m.check = .error reason ↔
      m.checkEdges [] m.edges = .error reason ∨
      m.checkEdges [] m.edges = .ok () ∧
        (m.checkDefaults m.defaults = .error reason ∨
          m.checkDefaults m.defaults = .ok () ∧ m.checkCycles = .error reason) := by
  rw [check]
  cases m.checkEdges [] m.edges with
  | error e => simp [bind, Except.bind]
  | ok u =>
    cases m.checkDefaults m.defaults with
    | error e => simp [bind, Except.bind]
    | ok u' => simp [bind, Except.bind]

end Manifest

namespace IndexedManifest

theorem Consistent.head?_outputs {m : IndexedManifest} (h : m.Consistent) {e : Edge}
    (he : e ∈ m.edges) : ∃ output, e.outputs.head? = some output ∧ e.firstOutput = output.text := by
  obtain ⟨output, rest, houtputs⟩ := List.exists_cons_of_ne_nil (h.someOutput e he)
  exact ⟨output, by rw [houtputs, List.head?_cons], by rw [Edge.firstOutput, houtputs]⟩

/-- **A refused manifest is refused for a flaw that it has**, and for the first one: the first edge
with an undeclared rule; where there is none, the first default target that nothing writes; and
where there is none either, an edge that leads back to itself. No error is about two writers of a
path. -/
theorem check_made_error {calls : List Growth} {reason : ManifestError}
    (h : (made calls).check = .error reason) :
    ((∃ e output, IsFirst (made calls).Undeclared (made calls).edges e ∧
        e.outputs.head? = some output ∧ reason = .undeclaredRule e.rule output.text) ∨
      (∀ e ∈ (made calls).edges, ¬ (made calls).Undeclared e) ∧
        ((∃ p, IsFirst (made calls).Unwritten (made calls).defaults p ∧
            reason = .unwrittenDefault p.text) ∨
          (∀ p ∈ (made calls).defaults, ¬ (made calls).Unwritten p) ∧
            ∃ n e output, (made calls).edges[n]? = some e ∧ e.outputs.head? = some output ∧
              TransGen (made calls).Feeds n n ∧ reason = .cycle output.text)) ∧
    ∀ path first second, reason ≠ .outputTwice path first second := by
  have hmade := consistent_made calls
  rcases Manifest.check_eq_error_iff.mp h with hedges | ⟨hedges, hdefaults | ⟨hdefaults, hcycles⟩⟩
  · obtain ⟨e, hfirst, rfl⟩ := (Manifest.checkEdges_eq_error_iff hmade.oneWriter).mp hedges
    obtain ⟨-, before, after, hsplit, -⟩ := id hfirst
    obtain ⟨output, hhead, htext⟩ := hmade.head?_outputs (e := e) (by rw [hsplit]; simp)
    rw [htext]
    exact ⟨.inl ⟨e, output, hfirst, hhead, rfl⟩, by simp⟩
  · rw [Manifest.checkEdges_eq_ok_iff hmade.oneWriter] at hedges
    obtain ⟨p, hfirst, rfl⟩ := Manifest.checkDefaults_eq_error_iff.mp hdefaults
    exact ⟨.inr ⟨fun e he => Manifest.not_undeclared_iff.mpr (hedges e he),
      .inl ⟨p, hfirst, rfl⟩⟩, by simp⟩
  · rw [Manifest.checkEdges_eq_ok_iff hmade.oneWriter] at hedges
    rw [Manifest.checkDefaults_eq_ok_iff] at hdefaults
    obtain ⟨n, e, he, hcycle, rfl⟩ :=
      Manifest.exists_of_checkCycles_error hmade.oneWriter hcycles
    obtain ⟨output, hhead, htext⟩ := hmade.head?_outputs (List.mem_of_getElem? he)
    rw [htext]
    refine ⟨.inr ⟨fun e he => Manifest.not_undeclared_iff.mpr (hedges e he),
      .inr ⟨fun p hp hunwritten => ?_, n, e, output, he, hhead, hcycle, rfl⟩⟩, by simp⟩
    obtain ⟨writer, hwriter, hout⟩ := hdefaults p hp
    exact hunwritten writer hwriter hout

namespace Sample

/-- A cycle of two edges between an edge that it depends on and one that depends on it. -/
def between : List Growth :=
  [.rule { name := "cc", command := "cc" },
    .edge { outputs := [.literal "a"], rule := "cc" },
    .edge { outputs := [.literal "d"], rule := "cc", inputs := [.literal "c"] },
    .edge { outputs := [.literal "b"], rule := "cc", inputs := [.literal "a", .literal "c"] },
    .edge { outputs := [.literal "c"], rule := "cc", inputs := [.literal "b"] }]

/-- An edge of the cycle is named. -/
theorem check_made_error_between :
    (made between).check = .error (.cycle "c") ∧
      ∃ n e output, (made between).edges[n]? = some e ∧ e.outputs.head? = some output ∧
        output.text = "c" ∧ TransGen (made between).Feeds n n := by
  have hgraph : (made between).dependencies = ⟨4, [(3, 1), (0, 2), (3, 2), (2, 3)]⟩ := by
    decide +kernel
  have hcycle : (made between).dependencies.cycleNode? = some 3 := by
    rw [hgraph]
    simp [Digraph.cycleNode?, Digraph.order, Digraph.nodes, Digraph.finishAll, Digraph.finish,
      Digraph.pushed, Digraph.successors, Digraph.predecessors, Digraph.sweepAll, Digraph.sweep,
      List.range, List.range.loop]
  have hrefused : (made between).check = .error (.cycle "c") := by
    have hedges : (made between).checkEdges [] (made between).edges = .ok () := by decide +kernel
    have hcycles : (made between).checkCycles = .error (.cycle "c") := by
      rw [Manifest.checkCycles, hcycle]
      decide +kernel
    exact Manifest.check_eq_error_iff.mpr (.inr ⟨hedges, .inr ⟨rfl, hcycles⟩⟩)
  obtain ⟨⟨e, output, -, -, hreason⟩ | ⟨-, ⟨p, -, hreason⟩ |
    ⟨-, n, e, output, he, hhead, hcycle, hreason⟩⟩, -⟩ := check_made_error hrefused
  · cases hreason
  · cases hreason
  · exact ⟨hrefused, n, e, output, he, hhead, (ManifestError.cycle.inj hreason).symm, hcycle⟩

end Sample

end IndexedManifest

end BuildPlan.Ninja
