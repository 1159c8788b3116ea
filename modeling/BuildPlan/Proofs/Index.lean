import BuildPlan.Ninja.Index
import BuildPlan.Proofs.Manifest

/-!
# What holds of a manifest after any calls

The index of writers is kept beside the edges and could fall behind them. It never does: after any
calls, refused ones included, the position kept for a path is that of the edge that writes it
(`Consistent.positions`), so that every look-up in the index can be taken for one in the edges. With
this a call on an indexed manifest is the call on the manifest without the index
(`toManifest_made`), and what is known of the one holds of the other.
-/

namespace BuildPlan.Ninja.IndexedManifest

open Manifest (outputs)

variable {m : IndexedManifest} {e : Edge} {p : EscapedPath}

/-! ## Calls -/

def call (m : IndexedManifest) : Growth → IndexedManifest × Answer
  | .comment line => (m.pushComment line, .ok ())
  | .var name value => (m.pushVariable name value, .ok ())
  | .rule r => m.pushRule r
  | .edge e => m.pushEdge e
  | .target path => (m.pushDefault path, .ok ())

/-- The manifest after calls, and what each of them answers. -/
def run (m : IndexedManifest) : List Growth → IndexedManifest × List Answer
  | [] => (m, [])
  | c :: cs => (((m.call c).1.run cs).1, (m.call c).2 :: ((m.call c).1.run cs).2)

def made (calls : List Growth) : IndexedManifest := (empty.run calls).1

/-- What calls on the empty manifest answer, each with its answer. -/
def answered (calls : List Growth) : List (Growth × Answer) := calls.zip (empty.run calls).2

/-- The rule that a call adds, if it is one that adds a rule and is not refused. -/
def ruleOf? : Growth × Answer → Option Rule
  | (.rule r, .ok ()) => some r
  | _ => none

/-- The edge that a call adds, if it is one that adds an edge and is not refused. -/
def edgeOf? : Growth × Answer → Option Edge
  | (.edge e, .ok ()) => some e
  | _ => none

/-! ## The index -/

/-- What holds of a manifest after any calls. -/
structure Consistent (m : IndexedManifest) : Prop where
  ruleNames : (m.rules.map (·.name)).Nodup
  notPhony : ∀ r ∈ m.rules, r.name ≠ phony
  someOutput : ∀ e ∈ m.edges, e.outputs ≠ []
  oneWriter : (outputs m.edges).Nodup
  positions : ∀ p, m.writers.lookup p = m.writerIndex? p

theorem lookup_register {position : Nat} {paths : List EscapedPath}
    {writers : List (EscapedPath × Nat)} :
    (register position paths writers).lookup p =
      if p ∈ paths then some position else writers.lookup p := by
  unfold register
  induction paths generalizing writers with
  | nil => simp
  | cons q paths ih =>
    rw [List.foldl_cons, ih, List.lookup_cons]
    by_cases hq : p = q
    · simp [hq]
    · have hbeq : (p == q) = false := beq_false_of_ne hq
      simp [hq, hbeq]

theorem findIdx?_bind_getElem? {α : Type} (f : α → Bool) (l : List α) :
    (l.findIdx? f).bind (l[·]?) = l.find? f := by
  induction l with
  | nil => rfl
  | cons a l ih =>
    rw [List.findIdx?_cons, List.find?_cons]
    cases f a with
    | true => simp
    | false =>
      rw [← ih]
      cases l.findIdx? f <;> simp

theorem Consistent.producer?_eq (h : m.Consistent) : m.producer? p = m.toManifest.producer? p := by
  rw [producer?, h.positions, Manifest.writerIndex?, findIdx?_bind_getElem?]
  rfl

theorem Consistent.producer?_eq_some_iff (h : m.Consistent) :
    m.producer? p = some e ↔ e ∈ m.edges ∧ p ∈ e.outputs := by
  rw [h.producer?_eq, Manifest.producer?, writer?]
  constructor
  · intro hfound
    exact ⟨List.mem_of_find?_eq_some hfound, by simpa using List.find?_some hfound⟩
  · rintro ⟨he, hp⟩
    obtain ⟨w, hw⟩ : ∃ w, m.edges.find? (·.outputs.contains p) = some w := by
      rw [← Option.isSome_iff_exists, List.find?_isSome]
      exact ⟨e, he, by simpa using hp⟩
    have hpw : p ∈ w.outputs := by simpa using List.find?_some hw
    rw [hw, Manifest.eq_of_mem_outputs h.oneWriter (List.mem_of_find?_eq_some hw) he hpw hp]

theorem Consistent.clashFrom_eq (h : m.Consistent) {before rest : List EscapedPath} :
    m.clashFrom e before rest = Ninja.clashFrom m.edges e before rest := by
  induction rest generalizing before with
  | nil => rfl
  | cons p rest ih =>
    rw [clashFrom, Ninja.clashFrom, h.producer?_eq, ih]
    rfl

/-! ## What a call does -/

theorem pushRule_cases (m : IndexedManifest) (r : Rule) :
    (∃ reason, m.pushRule r = (m, .error reason)) ∨
      (r.name ≠ phony ∧ (∀ r' ∈ m.rules, r'.name ≠ r.name) ∧
        m.pushRule r = ({ m with rules := m.rules ++ [r] }, .ok ())) := by
  rw [pushRule]
  split_ifs with htaken
  · exact .inl ⟨_, rfl⟩
  · rw [not_or, Manifest.declared?, List.find?_isSome] at htaken
    refine .inr ⟨htaken.1, fun r' hr' hname => htaken.2 ⟨r', hr', by simp [hname]⟩, rfl⟩

theorem Consistent.pushEdge_cases (h : m.Consistent) (e : Edge) :
    (∃ reason, m.pushEdge e = (m, .error reason) ∧
      ¬ (e.outputs ≠ [] ∧ clash? m.edges e = none)) ∨
      (e.outputs ≠ [] ∧ clash? m.edges e = none ∧
        m.pushEdge e = ({ m with
          edges := m.edges ++ [e]
          writers := register m.edges.length e.outputs m.writers }, .ok ())) := by
  rw [pushEdge, h.clashFrom_eq, ← clash?]
  split_ifs with hnone
  · exact .inl ⟨_, rfl, fun hsome => hsome.1 (by simpa using hnone)⟩
  · have hsome : e.outputs ≠ [] := by simpa using hnone
    cases hclash : clash? m.edges e with
    | some reason => exact .inl ⟨reason, rfl, by simp⟩
    | none => exact .inr ⟨hsome, rfl, rfl⟩

/-- **What a call does**: it is refused and changes nothing, or it adds what it is about. -/
theorem call_cases (m : IndexedManifest) (c : Growth) :
    (∃ reason, m.call c = (m, .error reason)) ∨
      ((m.call c).2 = .ok () ∧
        (m.call c).1.rules = m.rules ++ (ruleOf? (c, .ok ())).toList ∧
        (m.call c).1.edges = m.edges ++ (edgeOf? (c, .ok ())).toList) := by
  have hrules : m.rules = m.rules ++ [] := (List.append_nil _).symm
  have hedges : m.edges = m.edges ++ [] := (List.append_nil _).symm
  cases c with
  | comment line => exact .inr ⟨rfl, hrules, hedges⟩
  | var name value => exact .inr ⟨rfl, hrules, hedges⟩
  | target path => exact .inr ⟨rfl, hrules, hedges⟩
  | rule r =>
    rw [call, pushRule]
    split_ifs
    · exact .inl ⟨_, rfl⟩
    · exact .inr ⟨rfl, rfl, hedges⟩
  | edge e =>
    rw [call, pushEdge]
    split_ifs
    · exact .inl ⟨_, rfl⟩
    · split
      · exact .inl ⟨_, rfl⟩
      · exact .inr ⟨rfl, hrules, rfl⟩

theorem call_of_refused {c : Growth} {reason : ManifestError} (h : (m.call c).2 = .error reason) :
    (m.call c).1 = m := by
  obtain ⟨reason', hrefused⟩ | ⟨haccepted, -, -⟩ := m.call_cases c
  · rw [hrefused]
  · rw [haccepted] at h
    cases h

theorem call_rules (m : IndexedManifest) (c : Growth) :
    (m.call c).1.rules = m.rules ++ (ruleOf? (c, (m.call c).2)).toList := by
  obtain ⟨reason, hrefused⟩ | ⟨haccepted, hrules, -⟩ := m.call_cases c
  · have hnone : ruleOf? (c, .error reason) = none := by cases c <;> rfl
    rw [hrefused, hnone]
    exact (List.append_nil _).symm
  · rw [haccepted, hrules]

theorem call_edges (m : IndexedManifest) (c : Growth) :
    (m.call c).1.edges = m.edges ++ (edgeOf? (c, (m.call c).2)).toList := by
  obtain ⟨reason, hrefused⟩ | ⟨haccepted, -, hedges⟩ := m.call_cases c
  · have hnone : edgeOf? (c, .error reason) = none := by cases c <;> rfl
    rw [hrefused, hnone]
    exact (List.append_nil _).symm
  · rw [haccepted, hedges]

theorem consistent_empty : empty.Consistent where
  ruleNames := List.nodup_nil
  notPhony := by simp [empty]
  someOutput := by simp [empty]
  oneWriter := List.nodup_nil
  positions := fun _ => rfl

theorem Consistent.pushRule (h : m.Consistent) (r : Rule) : (m.pushRule r).1.Consistent := by
  obtain ⟨reason, hrefused⟩ | ⟨hphony, hnew, hpushed⟩ := m.pushRule_cases r
  · rw [hrefused]
    exact h
  · rw [hpushed]
    refine ⟨?_, ?_, h.someOutput, h.oneWriter, h.positions⟩
    · rw [List.map_append, List.nodup_append]
      refine ⟨h.ruleNames, List.nodup_singleton _, ?_⟩
      intro name hname other hother
      obtain ⟨r', hr', rfl⟩ := List.mem_map.mp hname
      rw [List.map_singleton, List.mem_singleton] at hother
      rw [hother]
      exact hnew r' hr'
    · intro r' hr'
      rcases List.mem_append.mp hr' with hr' | hr'
      · exact h.notPhony r' hr'
      · rw [List.mem_singleton.mp hr']
        exact hphony

theorem Consistent.pushEdge (h : m.Consistent) (e : Edge) : (m.pushEdge e).1.Consistent := by
  obtain ⟨reason, hrefused, -⟩ | ⟨houtputs, hclash, hpushed⟩ := h.pushEdge_cases e
  · rw [hrefused]
    exact h
  · rw [hpushed]
    refine ⟨h.ruleNames, h.notPhony, ?_, ?_, ?_⟩
    · intro e' he'
      rcases List.mem_append.mp he' with he' | he'
      · exact h.someOutput e' he'
      · rw [List.mem_singleton.mp he']
        exact houtputs
    · exact Manifest.outputs_nodup_append.mpr ⟨h.oneWriter, hclash⟩
    · -- an output of the new edge had no position before, and every other path keeps its own
      intro p
      have hnew : p ∈ e.outputs → m.edges.findIdx? (·.outputs.contains p) = none := by
        intro hp
        have hnot := (Manifest.clash?_eq_none_iff.mp hclash).2 p hp
        rw [List.findIdx?_eq_none_iff]
        intro e' he'
        simpa using fun hp' => hnot (Manifest.mem_outputs.mpr ⟨e', he', hp'⟩)
      rw [lookup_register, h.positions, Manifest.writerIndex?, Manifest.writerIndex?,
        List.findIdx?_append]
      by_cases hp : p ∈ e.outputs
      · rw [hnew hp]
        simp [hp, List.findIdx?_cons]
      · simp [hp, List.findIdx?_cons]

theorem Consistent.call (h : m.Consistent) (c : Growth) : (m.call c).1.Consistent := by
  cases c with
  | comment line => exact ⟨h.ruleNames, h.notPhony, h.someOutput, h.oneWriter, h.positions⟩
  | var name value => exact ⟨h.ruleNames, h.notPhony, h.someOutput, h.oneWriter, h.positions⟩
  | target path => exact ⟨h.ruleNames, h.notPhony, h.someOutput, h.oneWriter, h.positions⟩
  | rule r => exact h.pushRule r
  | edge e => exact h.pushEdge e

/-! ## What calls do -/

theorem Consistent.run (h : m.Consistent) (cs : List Growth) : (m.run cs).1.Consistent := by
  induction cs generalizing m with
  | nil => exact h
  | cons c cs ih => exact ih (h.call c)

theorem consistent_made (calls : List Growth) : (made calls).Consistent :=
  consistent_empty.run calls

theorem run_append (m : IndexedManifest) (cs cs' : List Growth) :
    m.run (cs ++ cs') = (((m.run cs).1.run cs').1, (m.run cs).2 ++ ((m.run cs).1.run cs').2) := by
  induction cs generalizing m with
  | nil => rfl
  | cons c cs ih => simp only [List.cons_append, run, ih]

theorem run_of_refused {calls : List Growth} {c : Growth} {reason : ManifestError}
    (h : ((made calls).call c).2 = .error reason) (later : List Growth) :
    made (calls ++ c :: later) = made (calls ++ later) ∧
      (empty.run (calls ++ c :: later)).2 =
        (empty.run calls).2 ++ .error reason :: ((made calls).run later).2 := by
  have hsame := call_of_refused h
  rw [made] at h hsame
  constructor
  · simp only [made, run_append, run, hsame]
  · simp only [made, run_append, run, h, hsame]

theorem toManifest_pushRule (m : IndexedManifest) (r : Rule) :
    m.toManifest.pushRule r = (m.pushRule r).2.map fun () => (m.pushRule r).1.toManifest := by
  rw [Manifest.pushRule, pushRule]
  split_ifs <;> rfl

theorem Consistent.toManifest_pushEdge (h : m.Consistent) (e : Edge) :
    m.toManifest.pushEdge e = (m.pushEdge e).2.map fun () => (m.pushEdge e).1.toManifest := by
  rw [Manifest.pushEdge, IndexedManifest.pushEdge, h.clashFrom_eq, ← clash?]
  split_ifs
  · rfl
  · cases clash? m.edges e <;> rfl

theorem Consistent.toManifest_call (h : m.Consistent) (c : Growth) :
    (m.call c).1.toManifest = m.toManifest.grow c := by
  have hrefused : ∀ reason, (m.call c).2 = .error reason → (m.call c).1 = m :=
    fun _ => call_of_refused
  cases c with
  | comment line => rfl
  | var name value => rfl
  | target path => rfl
  | rule r =>
    rw [Manifest.grow, toManifest_pushRule]
    cases hanswer : (m.pushRule r).2 with
    | error reason => exact congrArg toManifest (hrefused reason hanswer)
    | ok u => rfl
  | edge e =>
    rw [Manifest.grow, h.toManifest_pushEdge]
    cases hanswer : (m.pushEdge e).2 with
    | error reason => exact congrArg toManifest (hrefused reason hanswer)
    | ok u => rfl

/-- **The index changes nothing**: calls make the same manifest with it and without it. -/
theorem toManifest_made (calls : List Growth) :
    (made calls).toManifest = Manifest.made calls := by
  -- by induction on the calls, from any manifest whose index is right
  have hfold : ∀ m : IndexedManifest, m.Consistent →
      (m.run calls).1.toManifest = calls.foldl Manifest.grow m.toManifest := by
    induction calls with
    | nil => exact fun m _ => rfl
    | cons c cs ih =>
      intro m hm
      rw [List.foldl_cons, ← hm.toManifest_call c]
      exact ih _ (hm.call c)
  exact hfold empty consistent_empty

theorem run_added {α : Type} (list : IndexedManifest → List α) (added? : Growth × Answer → Option α)
    (hcall : ∀ m c, list (m.call c).1 = list m ++ (added? (c, (m.call c).2)).toList)
    (m : IndexedManifest) (cs : List Growth) :
    list (m.run cs).1 = list m ++ (cs.zip (m.run cs).2).filterMap added? := by
  induction cs generalizing m with
  | nil => exact (List.append_nil _).symm
  | cons c cs ih =>
    rw [run, ih, hcall, List.append_assoc, List.zip_cons_cons, List.filterMap_cons]
    cases added? (c, (m.call c).2) <;> rfl

theorem Consistent.pushEdge_refused_iff (h : m.Consistent) :
    (∃ reason, (m.pushEdge e).2 = .error reason) ↔
      e.outputs = [] ∨ ¬ e.outputs.Nodup ∨ ∃ p ∈ e.outputs, p ∈ outputs m.edges := by
  have haccepted : (e.outputs ≠ [] ∧ clash? m.edges e = none) ↔
      ¬ (e.outputs = [] ∨ ¬ e.outputs.Nodup ∨ ∃ p ∈ e.outputs, p ∈ outputs m.edges) := by
    rw [Manifest.clash?_eq_none_iff]
    push Not
    rfl
  obtain ⟨reason, hrefused, hnot⟩ | ⟨houtputs, hclash, hpushed⟩ := h.pushEdge_cases e
  · rw [hrefused]
    exact iff_of_true ⟨reason, rfl⟩ (not_not.mp fun hno => hnot (haccepted.mpr hno))
  · rw [hpushed]
    exact iff_of_false (by simp) (haccepted.mp ⟨houtputs, hclash⟩)

/-! ## Any calls -/

/-- **Whatever calls made a manifest**, its rules have names of their own, none of them `phony`, its
edges have outputs, and no path is written twice; the writer of a path is the one edge that has it
among its outputs. The rules and edges are those of the calls that were accepted, in their order.
An edge is refused for its outputs alone, and after a refused call all is as if it had not been
made. -/
theorem made_well_kept (calls : List Growth) :
    ((made calls).rules.map (·.name)).Nodup ∧ (∀ r ∈ (made calls).rules, r.name ≠ phony) ∧
    (∀ e ∈ (made calls).edges, e.outputs ≠ []) ∧
    (outputs (made calls).edges).Nodup ∧
    (∀ p e, (made calls).producer? p = some e ↔ e ∈ (made calls).edges ∧ p ∈ e.outputs) ∧
    (∀ p e, (made calls).producer? p = some e →
      (made calls).edges.filter (p ∈ ·.outputs) = [e]) ∧
    (made calls).rules = (answered calls).filterMap ruleOf? ∧
    (made calls).edges = (answered calls).filterMap edgeOf? ∧
    (∀ e, (∃ reason, ((made calls).pushEdge e).2 = .error reason) ↔
      e.outputs = [] ∨ ¬ e.outputs.Nodup ∨ ∃ p ∈ e.outputs, p ∈ outputs (made calls).edges) ∧
    ∀ c reason, ((made calls).call c).2 = .error reason → ∀ later,
      made (calls ++ c :: later) = made (calls ++ later) ∧
        (empty.run (calls ++ c :: later)).2 =
          (empty.run calls).2 ++ .error reason :: ((made calls).run later).2 := by
  have h := consistent_made calls
  refine ⟨h.ruleNames, h.notPhony, h.someOutput, h.oneWriter, fun p e => h.producer?_eq_some_iff,
    ?_, ?_, ?_, fun e => h.pushEdge_refused_iff, fun c reason hc later => run_of_refused hc later⟩
  · intro p e hp
    obtain ⟨he, hwrites⟩ := h.producer?_eq_some_iff.mp hp
    exact Manifest.filter_writers h.oneWriter he hwrites
  · exact run_added (·.rules) ruleOf? call_rules empty calls
  · exact run_added (·.edges) edgeOf? call_edges empty calls

namespace Sample

def calls : List Growth := [.edge { outputs := [.literal "a"], rule := "cc" }]

/-- An edge whose second output is written already. -/
def late : Edge := { outputs := [.literal "b", .literal "a"], rule := "link" }

/-- The first output of an edge that was refused has no writer. -/
theorem made_well_kept_late :
    ((made calls).call (.edge late)).2 = .error (.outputTwice "a" "cc" "link") ∧
      (made (calls ++ [.edge late])).producer? (.literal "b") = none := by
  have hrefused : ((made calls).call (.edge late)).2 = .error (.outputTwice "a" "cc" "link") := by
    decide
  obtain ⟨-, -, -, -, -, -, -, -, -, hsame⟩ := made_well_kept calls
  refine ⟨hrefused, ?_⟩
  rw [(hsame (.edge late) _ hrefused []).1]
  decide

end Sample

end BuildPlan.Ninja.IndexedManifest
