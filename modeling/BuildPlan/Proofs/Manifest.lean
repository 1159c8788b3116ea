import BuildPlan.Ninja.Manifest
import BuildPlan.Proofs.DepthFirst
import Mathlib.Data.List.Nodup
import Mathlib.Data.List.Pairwise
import Mathlib.Order.Basic

/-!
# What a checked manifest guarantees

A manifest is made by calls, of which the refused ones leave it as it is. Whatever the calls, no
path has two writers (`made_outputs_nodup`), so the position of a writer is unique and the arcs of
`dependencies` are the pairs of edges of which one writes what the other reads (`arc_iff_feeds`).
`check` then accepts exactly the manifests that can be built (`check_made_iff`).
-/

namespace BuildPlan.Ninja

open Relation (TransGen)

/-- A call that lets a manifest grow. -/
inductive Growth where
  | comment (line : String)
  | var (name value : String)
  | rule (r : Rule)
  | edge (e : Edge)
  | target (path : EscapedPath)
  deriving DecidableEq, Repr

namespace Manifest

/-- The manifest after a call. A call that is refused leaves it as it is. -/
def grow (m : Manifest) : Growth → Manifest
  | .comment line => m.pushComment line
  | .var name value => m.pushVariable name value
  | .rule r => (m.pushRule r).toOption.getD m
  | .edge e => (m.pushEdge e).toOption.getD m
  | .target path => m.pushDefault path

/-- The manifest that calls make of the empty one. -/
def made (calls : List Growth) : Manifest := calls.foldl grow empty

/-! ## One writer for each path -/

def outputs (edges : List Edge) : List EscapedPath := edges.flatMap Edge.outputs

theorem mem_outputs {edges : List Edge} {p : EscapedPath} :
    p ∈ outputs edges ↔ ∃ e ∈ edges, p ∈ e.outputs := by
  simp [outputs]

theorem outputs_append (edges others : List Edge) :
    outputs (edges ++ others) = outputs edges ++ outputs others := by
  simp [outputs]

theorem outputs_singleton (e : Edge) : outputs [e] = e.outputs := by
  simp [outputs]

theorem writer?_eq_none_iff {edges : List Edge} {p : EscapedPath} :
    writer? edges p = none ↔ p ∉ outputs edges := by
  simp [writer?, mem_outputs]

theorem clashFrom_eq_none_iff {earlier : List Edge} {edge : Edge} {before rest : List EscapedPath} :
    clashFrom earlier edge before rest = none ↔
      rest.Nodup ∧ ∀ p ∈ rest, p ∉ before ∧ p ∉ outputs earlier := by
  induction rest generalizing before with
  | nil => simp [clashFrom]
  | cons p rest ih =>
    rw [clashFrom]
    cases hw : writer? earlier p with
    | some w =>
      have hp : p ∈ outputs earlier := by
        by_contra hp
        rw [writer?_eq_none_iff.mpr hp] at hw
        cases hw
      simp [hp]
    | none =>
      have hp : p ∉ outputs earlier := writer?_eq_none_iff.mp hw
      by_cases hb : p ∈ before
      · simp [hb]
      · rw [show before.contains p = false by simpa using hb]
        simp only [Bool.false_eq_true, if_false, ih, List.nodup_cons, List.mem_cons,
          forall_eq_or_imp, not_or]
        constructor
        · rintro ⟨hnodup, hrest⟩
          exact ⟨⟨fun h => (hrest p h).1.1 rfl, hnodup⟩, ⟨hb, hp⟩,
            fun q hq => ⟨(hrest q hq).1.2, (hrest q hq).2⟩⟩
        · rintro ⟨⟨hnot, hnodup⟩, -, hrest⟩
          exact ⟨hnodup, fun q hq => ⟨⟨fun he => hnot (he ▸ hq), (hrest q hq).1⟩, (hrest q hq).2⟩⟩

theorem clash?_eq_none_iff {earlier : List Edge} {edge : Edge} :
    clash? earlier edge = none ↔ edge.outputs.Nodup ∧ ∀ p ∈ edge.outputs, p ∉ outputs earlier := by
  simp [clash?, clashFrom_eq_none_iff]

theorem outputs_nodup_append {earlier : List Edge} {edge : Edge} :
    (outputs (earlier ++ [edge])).Nodup ↔
      (outputs earlier).Nodup ∧ clash? earlier edge = none := by
  rw [outputs_append, outputs_singleton, List.nodup_append, clash?_eq_none_iff]
  constructor
  · rintro ⟨h1, h2, h3⟩
    exact ⟨h1, h2, fun p hp hq => h3 p hq p hp rfl⟩
  · rintro ⟨h1, h2, h3⟩
    exact ⟨h1, h2, fun p hp q hq he => h3 q hq (he ▸ hp)⟩

theorem eq_of_mem_outputs {edges : List Edge} (h : (outputs edges).Nodup) {e e' : Edge}
    (he : e ∈ edges) (he' : e' ∈ edges) {p : EscapedPath} (hp : p ∈ e.outputs)
    (hp' : p ∈ e'.outputs) : e = e' := by
  by_contra hne
  have hsymm : Std.Symm (Function.onFun List.Disjoint Edge.outputs) := ⟨fun _ _ h _ hp hq => h hq hp⟩
  exact (List.nodup_flatMap.mp h).2.forall he he' hne hp hp'

theorem filter_writers {edges : List Edge} {p : EscapedPath} (h : (outputs edges).Nodup)
    {writer : Edge} (hwriter : writer ∈ edges) (hp : p ∈ writer.outputs) :
    edges.filter (p ∈ ·.outputs) = [writer] := by
  obtain ⟨before, after, rfl⟩ := List.append_of_mem hwriter
  have hnone : ∀ others : List Edge, p ∉ outputs others →
      others.filter (p ∈ ·.outputs) = [] := by
    intro others hothers
    rw [List.filter_eq_nil_iff]
    intro other hother hout
    exact hothers (mem_outputs.mpr ⟨other, hother, by simpa using hout⟩)
  have houtputs : outputs (before ++ writer :: after) =
      outputs before ++ (writer.outputs ++ outputs after) := by
    rw [outputs_append]
    rfl
  rw [houtputs, List.nodup_append, List.nodup_append] at h
  obtain ⟨-, ⟨-, -, hafter⟩, hbefore⟩ := h
  have hnotBefore : p ∉ outputs before := fun hin =>
    hbefore p hin p (List.mem_append_left _ hp) rfl
  have hnotAfter : p ∉ outputs after := fun hin => hafter p hp p hin rfl
  rw [List.filter_append, List.filter_cons_of_pos (by simpa using hp), hnone before hnotBefore,
    hnone after hnotAfter, List.nil_append]

theorem clashFrom_eq_some {earlier : List Edge} {edge : Edge} {before rest : List EscapedPath}
    {reason : ManifestError} (h : clashFrom earlier edge before rest = some reason) :
    ∃ path first second, reason = .outputTwice path first second := by
  induction rest generalizing before with
  | nil => cases h
  | cons p rest ih =>
    rw [clashFrom] at h
    split at h
    · exact ⟨_, _, _, (Option.some.inj h).symm⟩
    · split_ifs at h
      · exact ⟨_, _, _, (Option.some.inj h).symm⟩
      · exact ih h

theorem pushEdge_eq_ok_iff {m m' : Manifest} {e : Edge} :
    m.pushEdge e = .ok m' ↔
      e.outputs ≠ [] ∧ clash? m.edges e = none ∧ m' = { m with edges := m.edges ++ [e] } := by
  rw [pushEdge]
  by_cases he : e.outputs = []
  · simp [he]
  · rw [if_neg (by simpa using he)]
    cases clash? m.edges e with
    | some reason => simp
    | none => simp [he, eq_comm]

theorem grow_edges (m : Manifest) (call : Growth) :
    (m.grow call).edges = m.edges ∨
      ∃ e, call = .edge e ∧ e.outputs ≠ [] ∧ clash? m.edges e = none ∧
        (m.grow call).edges = m.edges ++ [e] := by
  cases call with
  | comment line => exact .inl rfl
  | var name value => exact .inl rfl
  | target path => exact .inl rfl
  | rule r =>
    left
    rw [grow, pushRule]
    split <;> rfl
  | edge e =>
    rw [grow]
    cases h : m.pushEdge e with
    | error reason => exact .inl rfl
    | ok m' =>
      obtain ⟨hne, hclash, rfl⟩ := pushEdge_eq_ok_iff.mp h
      exact .inr ⟨e, rfl, hne, hclash, rfl⟩

theorem grow_outputs_nodup {m : Manifest} (h : (outputs m.edges).Nodup) (call : Growth) :
    (outputs (m.grow call).edges).Nodup := by
  rcases m.grow_edges call with he | ⟨e, -, -, hclash, he⟩
  · rw [he]
    exact h
  · rw [he]
    exact outputs_nodup_append.mpr ⟨h, hclash⟩

/-- **No path has two writers**, whatever calls made the manifest. -/
theorem made_outputs_nodup (calls : List Growth) : (outputs (made calls).edges).Nodup := by
  have hfold : ∀ m : Manifest, (outputs m.edges).Nodup →
      (outputs (calls.foldl grow m).edges).Nodup := by
    induction calls with
    | nil => exact fun m h => h
    | cons call calls ih => exact fun m h => ih _ (grow_outputs_nodup h call)
  exact hfold empty List.nodup_nil

/-! ## The dependencies -/

/-- The edge at position `i` writes a path that the edge at position `j` reads. -/
def Feeds (m : Manifest) (i j : Nat) : Prop :=
  ∃ writer reader, m.edges[i]? = some writer ∧ m.edges[j]? = some reader ∧
    ∃ p ∈ writer.outputs, p ∈ reader.reads

theorem Feeds.lt {m : Manifest} {i j : Nat} (h : m.Feeds i j) :
    i < m.edges.length ∧ j < m.edges.length := by
  obtain ⟨writer, reader, hi, hj, -⟩ := h
  exact ⟨(List.getElem?_eq_some_iff.mp hi).1, (List.getElem?_eq_some_iff.mp hj).1⟩

/-- Where no path has two writers, an edge that writes a path stands at the position of its
writer. -/
theorem findIdx?_writer {edges : List Edge} (h : (outputs edges).Nodup) {p : EscapedPath} {i : Nat} :
    edges.findIdx? (·.outputs.contains p) = some i ↔
      ∃ e, edges[i]? = some e ∧ p ∈ e.outputs := by
  induction edges generalizing i with
  | nil => simp
  | cons e edges ih =>
    rw [show outputs (e :: edges) = e.outputs ++ outputs edges from rfl, List.nodup_append] at h
    obtain ⟨-, hnodup, hdisjoint⟩ := h
    rw [List.findIdx?_cons]
    by_cases hp : p ∈ e.outputs
    · have hrest : ∀ e' ∈ edges, p ∉ e'.outputs := fun e' he' hp' =>
        hdisjoint p hp p (mem_outputs.mpr ⟨e', he', hp'⟩) rfl
      simp only [List.contains_eq_mem, hp, decide_true, if_true]
      cases i with
      | zero => simp [hp]
      | succ i =>
        simp only [Option.some.injEq, Nat.zero_ne_add_one, List.getElem?_cons_succ, false_iff]
        rintro ⟨e', he', hp'⟩
        exact hrest e' (List.mem_of_getElem? he') hp'
    · simp only [List.contains_eq_mem, hp, decide_false, Bool.false_eq_true, if_false]
      cases i with
      | zero => simp [hp]
      | succ i => simpa using ih hnodup (i := i)

theorem writerIndex?_eq_some_iff {m : Manifest} (h : (outputs m.edges).Nodup) {p : EscapedPath}
    {i : Nat} : m.writerIndex? p = some i ↔ ∃ e, m.edges[i]? = some e ∧ p ∈ e.outputs :=
  findIdx?_writer h

/-- **The arcs are the dependencies**: one leads from each edge to each edge that it feeds. -/
theorem arc_iff_feeds {m : Manifest} (h : (outputs m.edges).Nodup) {i j : Nat} :
    m.dependencies.Arc i j ↔ m.Feeds i j := by
  simp only [Digraph.Arc, dependencies, List.mem_flatMap, List.mem_map, List.mem_filterMap,
    Prod.exists, Prod.mk.injEq, List.mem_zipIdx_iff_getElem?, writerIndex?_eq_some_iff h]
  constructor
  · rintro ⟨reader, k, hj, w, ⟨p, hp, writer, hi, hw⟩, rfl, rfl⟩
    exact ⟨writer, reader, hi, hj, p, hw, hp⟩
  · rintro ⟨writer, reader, hi, hj, p, hw, hp⟩
    exact ⟨reader, j, hj, i, ⟨p, hp, writer, hi, hw⟩, rfl, rfl⟩

theorem arc_eq_feeds {m : Manifest} (h : (outputs m.edges).Nodup) :
    m.dependencies.Arc = m.Feeds := by
  funext i j
  exact propext (arc_iff_feeds h)

theorem dependencies_closed {m : Manifest} (h : (outputs m.edges).Nodup) :
    m.dependencies.Closed := fun _ _ harc => ((arc_iff_feeds h).mp harc).lt

/-! ## The check -/

theorem knowsRule_iff {m : Manifest} {name : String} :
    m.knowsRule name = true ↔ name = phony ∨ ∃ r ∈ m.rules, r.name = name := by
  simp [knowsRule, declared?]

theorem checkEdges_eq (m : Manifest) (earlier rest : List Edge)
    (h : (outputs (earlier ++ rest)).Nodup) :
    m.checkEdges earlier rest =
      (rest.find? fun e => !m.knowsRule e.rule).elim (.ok ())
        fun e => .error (.undeclaredRule e.rule e.firstOutput) := by
  induction rest generalizing earlier with
  | nil => rfl
  | cons e rest ih =>
    rw [List.append_cons] at h
    rw [checkEdges, List.find?_cons]
    cases hk : m.knowsRule e.rule with
    | false => simp
    | true =>
      have hclash : clash? earlier e = none := by
        rw [outputs_append] at h
        exact (outputs_nodup_append.mp (List.nodup_append.mp h).1).2
      simp only [if_true, hclash, Bool.not_true]
      exact ih _ h

theorem checkDefaults_eq (m : Manifest) (paths : List EscapedPath) :
    m.checkDefaults paths =
      (paths.find? fun p => (m.producer? p).isNone).elim (.ok ())
        fun p => .error (.unwrittenDefault p.text) := by
  induction paths with
  | nil => rfl
  | cons p paths ih =>
    rw [checkDefaults, List.find?_cons]
    cases hp : m.producer? p with
    | none => simp
    | some w => simpa using ih

theorem checkCycles_eq_ok_iff {m : Manifest} (h : (outputs m.edges).Nodup) :
    m.checkCycles = .ok () ↔ ∀ i, ¬ TransGen m.Feeds i i := by
  rw [← arc_eq_feeds h, ← Digraph.Acyclic, ← Digraph.cycleNode?_eq_none_iff (dependencies_closed h),
    checkCycles]
  cases m.dependencies.cycleNode? <;> simp

theorem checkEdges_eq_ok_iff {m : Manifest} (h : (outputs m.edges).Nodup) :
    m.checkEdges [] m.edges = .ok () ↔
      ∀ e ∈ m.edges, e.rule = phony ∨ ∃ r ∈ m.rules, r.name = e.rule := by
  rw [checkEdges_eq m [] m.edges h]
  simp only [← knowsRule_iff]
  cases hf : m.edges.find? fun e => !m.knowsRule e.rule with
  | none => simpa using List.find?_eq_none.mp hf
  | some e =>
    have hk := List.find?_some hf
    simp only [Option.elim_some, reduceCtorEq, false_iff, not_forall]
    exact ⟨e, List.mem_of_find?_eq_some hf, by simpa using hk⟩

theorem checkDefaults_eq_ok_iff {m : Manifest} :
    m.checkDefaults m.defaults = .ok () ↔ ∀ p ∈ m.defaults, ∃ e ∈ m.edges, p ∈ e.outputs := by
  rw [checkDefaults_eq]
  simp only [← mem_outputs]
  cases hf : m.defaults.find? fun p => (m.producer? p).isNone with
  | none =>
    have hall := List.find?_eq_none.mp hf
    simp only [Option.elim_none, true_iff]
    intro p hp
    by_contra hnot
    exact hall p hp (by simp [producer?, writer?_eq_none_iff.mpr hnot])
  | some p =>
    have hnone := List.find?_some hf
    simp only [Option.elim_some, reduceCtorEq, false_iff, not_forall]
    refine ⟨p, List.mem_of_find?_eq_some hf, ?_⟩
    exact writer?_eq_none_iff.mp (by simpa [producer?] using hnone)

theorem check_eq_ok_iff {m : Manifest} (h : (outputs m.edges).Nodup) :
    m.check = .ok () ↔
      (∀ e ∈ m.edges, e.rule = phony ∨ ∃ r ∈ m.rules, r.name = e.rule) ∧
      (∀ p ∈ m.defaults, ∃ e ∈ m.edges, p ∈ e.outputs) ∧ ∀ i, ¬ TransGen m.Feeds i i := by
  rw [← checkEdges_eq_ok_iff h, ← checkDefaults_eq_ok_iff, ← checkCycles_eq_ok_iff h, check]
  cases m.checkEdges [] m.edges with
  | error e => simp [bind, Except.bind]
  | ok u =>
    cases m.checkDefaults m.defaults with
    | error e => simp [bind, Except.bind]
    | ok u' => simp [bind, Except.bind]

theorem notMem_reads_of_check {m : Manifest} {p : EscapedPath} (h : (outputs m.edges).Nodup)
    (hcheck : m.check = .ok ()) {e : Edge} (he : e ∈ m.edges) (hp : p ∈ e.outputs) :
    p ∉ e.reads := by
  intro hread
  obtain ⟨-, -, hacyclic⟩ := (check_eq_ok_iff h).mp hcheck
  obtain ⟨n, hn⟩ := List.mem_iff_getElem?.mp he
  exact hacyclic n (.single ⟨e, e, hn, hn, p, hp, hread⟩)

/-- No edge feeds itself where an edge only feeds edges of a higher rank. -/
theorem not_feeds_self_of_rank {α : Type} [Preorder α] {m : Manifest} (rank : Edge → α)
    (h : ∀ writer ∈ m.edges, ∀ reader ∈ m.edges, ∀ p ∈ writer.outputs, p ∈ reader.reads →
      rank writer < rank reader) (i : Nat) : ¬ TransGen m.Feeds i i := by
  have hstep : ∀ j k, m.Feeds j k →
      ∃ writer reader, m.edges[j]? = some writer ∧ m.edges[k]? = some reader ∧
        rank writer < rank reader := by
    rintro j k ⟨writer, reader, hj, hk, p, hp, hread⟩
    exact ⟨writer, reader, hj, hk,
      h writer (List.mem_of_getElem? hj) reader (List.mem_of_getElem? hk) p hp hread⟩
  have hpath : ∀ k, TransGen m.Feeds i k →
      ∃ first last, m.edges[i]? = some first ∧ m.edges[k]? = some last ∧ rank first < rank last := by
    intro k hk
    induction hk with
    | single hfeeds => exact hstep _ _ hfeeds
    | tail _ hfeeds ih =>
      obtain ⟨first, mid, hfirst, hmid, hlt⟩ := ih
      obtain ⟨mid', last, hmid', hlast, hlt'⟩ := hstep _ _ hfeeds
      obtain rfl := Option.some.inj (hmid.symm.trans hmid')
      exact ⟨first, last, hfirst, hlast, hlt.trans hlt'⟩
  intro hcycle
  obtain ⟨first, last, hfirst, hlast, hlt⟩ := hpath i hcycle
  obtain rfl := Option.some.inj (hfirst.symm.trans hlast)
  exact lt_irrefl _ hlt

/-- **A manifest passes its check exactly if it can be built**: every edge uses `phony` or a declared
rule, every default target is written, and no edge feeds itself over any number of edges. -/
theorem check_made_iff (calls : List Growth) :
    (made calls).check = .ok () ↔
      (∀ e ∈ (made calls).edges, e.rule = phony ∨ ∃ r ∈ (made calls).rules, r.name = e.rule) ∧
      (∀ p ∈ (made calls).defaults, ∃ e ∈ (made calls).edges, p ∈ e.outputs) ∧
      ∀ i, ¬ TransGen (made calls).Feeds i i :=
  check_eq_ok_iff (made_outputs_nodup calls)

end Manifest

end BuildPlan.Ninja
