import BuildPlan.Digraph
import Mathlib.Data.List.Nodup
import Mathlib.Logic.Relation

/-!
# Depth-first search finds cycles

The two passes of `Digraph.cycleNode?` against the arcs of the graph. What the first pass keeps is
`Search`: a node that is met and not yet finished stands on the stack, everything above it can be
reached from it, and an arc out of a finished node leads to a node that was finished before or that
leads back. The second pass then meets another new node only on a cycle.

* `cycleNode?_sound`: a node that is named lies on a cycle.
* `cycleNode?_eq_none_iff`: no node is named exactly where no node leads back to itself.
-/

namespace BuildPlan.Digraph

open Relation (TransGen)

/-! ## Arcs -/

def Arc (g : Digraph) (u v : Nat) : Prop := (u, v) ∈ g.arcs

/-- Every arc joins two nodes of the graph. -/
def Closed (g : Digraph) : Prop := ∀ u v, g.Arc u v → u < g.size ∧ v < g.size

/-- No node leads back to itself. -/
def Acyclic (g : Digraph) : Prop := ∀ n, ¬ TransGen g.Arc n n

theorem mem_successors {g : Digraph} {u v : Nat} : v ∈ g.successors u ↔ g.Arc u v := by
  simp [successors, Arc]

theorem mem_predecessors {g : Digraph} {u v : Nat} : u ∈ g.predecessors v ↔ g.Arc u v := by
  simp [predecessors, Arc]

theorem mem_nodes {g : Digraph} {n : Nat} : n ∈ g.nodes ↔ n < g.size := by
  simp [nodes]

theorem nodes_nodup (g : Digraph) : g.nodes.Nodup := List.nodup_range

theorem mem_pushed {unseen neighbours : List Nat} {v : Nat} :
    v ∈ pushed unseen neighbours ↔ v ∈ neighbours ∧ v ∈ unseen := by
  simp [pushed]

/-! ## The first pass -/

/-- What stands above the topmost `u` of a stack. -/
def above (u : Nat) (stack : List Nat) : List Nat := stack.takeWhile (· != u)

theorem above_self (u : Nat) (stack : List Nat) : above u (u :: stack) = [] := by
  simp [above]

theorem above_cons {u n : Nat} (h : n ≠ u) (stack : List Nat) :
    above u (n :: stack) = n :: above u stack := by
  simp [above, h]

theorem above_append {u : Nat} {top : List Nat} (h : u ∉ top) (stack : List Nat) :
    above u (top ++ stack) = top ++ above u stack := by
  rw [above, above, List.takeWhile_append_of_pos]
  intro x hx
  simp only [bne_iff_ne, ne_eq]
  exact fun he => h (he ▸ hx)

section FirstPass

variable {next : Nat → List Nat} {nodes unseen finished stack : List Nat}

/-- `v` can be reached from `u` over one neighbour or more. -/
def Leads (next : Nat → List Nat) : Nat → Nat → Prop := TransGen fun u v => v ∈ next u

/-- Nodes in the order in which they were finished, the last one first: each leads to nodes that
were finished before it, or to nodes that lead back to it. -/
def Ordered (next : Nat → List Nat) : List Nat → Prop
  | [] => True
  | u :: earlier => (∀ v ∈ next u, v ∈ earlier ∨ Leads next v u) ∧ Ordered next earlier

theorem Ordered.drop {later : List Nat} (h : Ordered next (later ++ finished)) :
    Ordered next finished := by
  induction later with
  | nil => exact h
  | cons u later ih => exact ih h.2

/-- A node that has been met and is not finished. -/
def Open (nodes unseen finished : List Nat) (u : Nat) : Prop :=
  u ∈ nodes ∧ u ∉ unseen ∧ u ∉ finished

/-- What holds whenever the first pass looks at its stack. -/
structure Search (next : Nat → List Nat) (nodes unseen finished stack : List Nat) : Prop where
  unseen_nodup : unseen.Nodup
  unseen_nodes : ∀ u ∈ unseen, u ∈ nodes
  finished_nodup : finished.Nodup
  finished_nodes : ∀ u ∈ finished, u ∈ nodes ∧ u ∉ unseen
  ordered : Ordered next finished
  loopless : ∀ u ∈ nodes, u ∉ unseen → u ∉ next u
  stack_nodes : ∀ u ∈ stack, u ∈ nodes
  open_mem : ∀ u, Open nodes unseen finished u → u ∈ stack
  reaches : ∀ u, Open nodes unseen finished u → ∀ x ∈ above u stack, Leads next u x
  pending : ∀ u, Open nodes unseen finished u → ∀ v ∈ next u, v ∈ unseen → v ∈ above u stack

theorem Search.start (hnodup : nodes.Nodup) : Search next nodes nodes [] [] where
  unseen_nodup := hnodup
  unseen_nodes := fun _ h => h
  finished_nodup := List.nodup_nil
  finished_nodes := by simp
  ordered := trivial
  loopless := fun u hu hun => absurd hu hun
  stack_nodes := by simp
  open_mem := fun u hu => absurd hu.1 hu.2.1
  reaches := fun u hu => absurd hu.1 hu.2.1
  pending := fun u hu => absurd hu.1 hu.2.1

theorem Search.not_open (hs : Search next nodes unseen finished []) (u : Nat) :
    ¬ Open nodes unseen finished u :=
  fun hu => List.not_mem_nil (hs.open_mem u hu)

theorem Search.push (hs : Search next nodes unseen finished []) {n : Nat} (hn : n ∈ unseen) :
    Search next nodes unseen finished [n] where
  unseen_nodup := hs.unseen_nodup
  unseen_nodes := hs.unseen_nodes
  finished_nodup := hs.finished_nodup
  finished_nodes := hs.finished_nodes
  ordered := hs.ordered
  loopless := hs.loopless
  stack_nodes := by
    intro u hu
    rw [List.mem_singleton] at hu
    exact hu ▸ hs.unseen_nodes n hn
  open_mem := fun u hu => absurd hu (hs.not_open u)
  reaches := fun u hu => absurd hu (hs.not_open u)
  pending := fun u hu => absurd hu (hs.not_open u)

/-- Meeting a node: it stays on the stack, below its unseen neighbours. -/
theorem Search.meet {n : Nat} {rest : List Nat}
    (hnodes : ∀ u ∈ nodes, ∀ v ∈ next u, v ∈ nodes)
    (hs : Search next nodes unseen finished (n :: rest)) (hn : n ∈ unseen) (hloop : n ∉ next n) :
    Search next nodes (unseen.erase n) finished
      (pushed (unseen.erase n) (next n) ++ n :: rest) := by
  have herase : ∀ u, u ∈ unseen.erase n ↔ u ≠ n ∧ u ∈ unseen := fun u =>
    hs.unseen_nodup.mem_erase_iff
  have hnn : n ∈ nodes := hs.unseen_nodes n hn
  -- nothing that is pushed is open, so the pushed nodes stand above every open node
  have habove : ∀ u, Open nodes (unseen.erase n) finished u →
      above u (pushed (unseen.erase n) (next n) ++ n :: rest) =
        pushed (unseen.erase n) (next n) ++ above u (n :: rest) := fun u hu =>
    above_append (fun h => hu.2.1 (mem_pushed.mp h).2) _
  -- and every open node but `n` was open before
  have hold : ∀ u, Open nodes (unseen.erase n) finished u → u ≠ n →
      Open nodes unseen finished u := fun u hu hne =>
    ⟨hu.1, fun h => hu.2.1 ((herase u).mpr ⟨hne, h⟩), hu.2.2⟩
  refine ⟨hs.unseen_nodup.erase n, ?_, hs.finished_nodup, ?_, hs.ordered, ?_, ?_, ?_, ?_, ?_⟩
  · intro u hu
    exact hs.unseen_nodes u ((herase u).mp hu).2
  · intro u hu
    exact ⟨(hs.finished_nodes u hu).1, fun h => (hs.finished_nodes u hu).2 ((herase u).mp h).2⟩
  · intro u hu hun
    by_cases hne : u = n
    · exact hne ▸ hloop
    · exact hs.loopless u hu fun h => hun ((herase u).mpr ⟨hne, h⟩)
  · intro u hu
    rcases List.mem_append.mp hu with hu | hu
    · exact hnodes n hnn u (mem_pushed.mp hu).1
    · exact hs.stack_nodes u hu
  · intro u hu
    by_cases hne : u = n
    · simp [hne]
    · exact List.mem_append_right _ (hs.open_mem u (hold u hu hne))
  · intro u hu x hx
    rw [habove u hu] at hx
    by_cases hne : u = n
    · subst hne
      rw [above_self, List.append_nil] at hx
      exact .single (mem_pushed.mp hx).1
    · have hreach := hs.reaches u (hold u hu hne)
      rcases List.mem_append.mp hx with hx | hx
      · rw [above_cons (Ne.symm hne)] at hreach
        exact .tail (hreach n (by simp)) (mem_pushed.mp hx).1
      · exact hreach x hx
  · intro u hu v hv hvu
    rw [habove u hu]
    by_cases hne : u = n
    · subst hne
      exact List.mem_append_left _ (mem_pushed.mpr ⟨hv, hvu⟩)
    · exact List.mem_append_right _ (hs.pending u (hold u hu hne) v hv ((herase v).mp hvu).2)

theorem Search.pop {n : Nat} {rest : List Nat}
    (hs : Search next nodes unseen finished (n :: rest)) (hn : n ∉ unseen) (hfin : n ∈ finished) :
    Search next nodes unseen finished rest := by
  have hne : ∀ u, Open nodes unseen finished u → n ≠ u := fun u hu he => hu.2.2 (he ▸ hfin)
  refine ⟨hs.unseen_nodup, hs.unseen_nodes, hs.finished_nodup, hs.finished_nodes, hs.ordered,
    hs.loopless, ?_, ?_, ?_, ?_⟩
  · intro u hu
    exact hs.stack_nodes u (List.mem_cons_of_mem n hu)
  · intro u hu
    exact (List.mem_cons.mp (hs.open_mem u hu)).resolve_left (Ne.symm (hne u hu))
  · intro u hu x hx
    have hreach := hs.reaches u hu
    rw [above_cons (hne u hu)] at hreach
    exact hreach x (List.mem_cons_of_mem n hx)
  · intro u hu v hv hvu
    have hmem := hs.pending u hu v hv hvu
    rw [above_cons (hne u hu)] at hmem
    exact (List.mem_cons.mp hmem).resolve_left fun he => hn (he ▸ hvu)

/-- Finishing the node on top: all its neighbours are seen, and one that is still open lies below it
and leads to it. -/
theorem Search.close {n : Nat} {rest : List Nat}
    (hnodes : ∀ u ∈ nodes, ∀ v ∈ next u, v ∈ nodes)
    (hs : Search next nodes unseen finished (n :: rest)) (hn : n ∉ unseen) (hfin : n ∉ finished) :
    Search next nodes unseen (n :: finished) (n :: rest) := by
  have hnn : n ∈ nodes := hs.stack_nodes n (by simp)
  have hopen : Open nodes unseen finished n := ⟨hnn, hn, hfin⟩
  have hold : ∀ u, Open nodes unseen (n :: finished) u → Open nodes unseen finished u :=
    fun u hu => ⟨hu.1, hu.2.1, fun h => hu.2.2 (List.mem_cons_of_mem n h)⟩
  refine ⟨hs.unseen_nodup, hs.unseen_nodes, List.nodup_cons.mpr ⟨hfin, hs.finished_nodup⟩, ?_,
    ⟨?_, hs.ordered⟩, hs.loopless, hs.stack_nodes, ?_, ?_, ?_⟩
  · intro u hu
    rcases List.mem_cons.mp hu with rfl | hu
    · exact ⟨hnn, hn⟩
    · exact hs.finished_nodes u hu
  · intro v hv
    have hseen : v ∉ unseen := by
      intro hvu
      have hmem := hs.pending n hopen v hv hvu
      rw [above_self] at hmem
      exact List.not_mem_nil hmem
    have hne : n ≠ v := fun he => hs.loopless n hnn hn (he ▸ hv)
    by_cases hvf : v ∈ finished
    · exact .inl hvf
    · have hreach := hs.reaches v ⟨hnodes n hnn v hv, hseen, hvf⟩
      rw [above_cons hne] at hreach
      exact .inr (hreach n (by simp))
  · intro u hu
    exact hs.open_mem u (hold u hu)
  · intro u hu
    exact hs.reaches u (hold u hu)
  · intro u hu
    exact hs.pending u (hold u hu)

/-- **The first pass from a stack** works off the stack and keeps `Search`. -/
theorem finish_ok (hnodes : ∀ u ∈ nodes, ∀ v ∈ next u, v ∈ nodes) {p : Progress}
    (hs : Search next nodes unseen finished stack)
    (h : finish next unseen finished stack = .ok p) :
    Search next nodes p.unseen p.finished [] ∧ (∀ u ∈ p.unseen, u ∈ unseen) ∧
      ∀ u ∈ stack, u ∉ p.unseen := by
  fun_induction finish next unseen finished stack with
  | case1 unseen finished =>
    cases h
    exact ⟨hs, fun _ h => h, by simp⟩
  | case2 unseen finished n rest hn hloop => cases h
  | case3 unseen finished n rest hn hloop ih =>
    obtain ⟨hs', hsub, hstack⟩ := ih (hs.meet hnodes hn hloop) h
    refine ⟨hs', fun u hu => List.mem_of_mem_erase (hsub u hu), fun u hu => ?_⟩
    exact hstack u (List.mem_append_right _ hu)
  | case4 unseen finished n rest hn ih =>
    have hpop : Search next nodes unseen (if n ∈ finished then finished else n :: finished)
        rest := by
      split
      · next hfin => exact hs.pop hn hfin
      · next hfin => exact (hs.close hnodes hn hfin).pop hn (by simp)
    obtain ⟨hs', hsub, hstack⟩ := ih hpop h
    refine ⟨hs', hsub, fun u hu => ?_⟩
    rcases List.mem_cons.mp hu with rfl | hu
    · exact fun h => hn (hsub u h)
    · exact hstack u hu

/-- The first pass stops only at a node that is its own neighbour. -/
theorem finish_error {n : Nat} (h : finish next unseen finished stack = .error n) :
    n ∈ unseen ∧ n ∈ next n := by
  fun_induction finish next unseen finished stack with
  | case1 => cases h
  | case2 unseen finished m rest hm hloop =>
    cases h
    exact ⟨hm, hloop⟩
  | case3 unseen finished m rest hm hloop ih =>
    exact ⟨List.mem_of_mem_erase (ih h).1, (ih h).2⟩
  | case4 unseen finished m rest hm ih => exact ih h

theorem finishAll_ok (hnodes : ∀ u ∈ nodes, ∀ v ∈ next u, v ∈ nodes) {p q : Progress}
    {starts : List Nat} (hs : Search next nodes p.unseen p.finished [])
    (h : finishAll next p starts = .ok q) :
    Search next nodes q.unseen q.finished [] ∧ (∀ u ∈ q.unseen, u ∈ p.unseen) ∧
      ∀ u ∈ starts, u ∉ q.unseen := by
  fun_induction finishAll next p starts with
  | case1 p =>
    cases h
    exact ⟨hs, fun _ h => h, by simp⟩
  | case2 p n starts hn e he => cases h
  | case3 p n starts hn p' hp' ih =>
    obtain ⟨hs', hsub', hstack⟩ := finish_ok hnodes (hs.push hn) hp'
    obtain ⟨hs'', hsub, hstarts⟩ := ih hs' h
    refine ⟨hs'', fun u hu => hsub' u (hsub u hu), fun u hu => ?_⟩
    rcases List.mem_cons.mp hu with rfl | hu
    · exact fun h => hstack u (by simp) (hsub u h)
    · exact hstarts u hu
  | case4 p n starts hn ih =>
    obtain ⟨hs', hsub, hstarts⟩ := ih hs h
    refine ⟨hs', hsub, fun u hu => ?_⟩
    rcases List.mem_cons.mp hu with rfl | hu
    · exact fun h => hn (hsub u h)
    · exact hstarts u hu

theorem finishAll_error (hnodes : ∀ u ∈ nodes, ∀ v ∈ next u, v ∈ nodes) {p : Progress}
    {starts : List Nat} {n : Nat} (hs : Search next nodes p.unseen p.finished [])
    (h : finishAll next p starts = .error n) : n ∈ nodes ∧ n ∈ next n := by
  fun_induction finishAll next p starts with
  | case1 => cases h
  | case2 p m starts hm e he =>
    cases h
    obtain ⟨hn, hloop⟩ := finish_error he
    exact ⟨hs.unseen_nodes n hn, hloop⟩
  | case3 p m starts hm p' hp' ih => exact ih (finish_ok hnodes (hs.push hm) hp').1 h
  | case4 p m starts hm ih => exact ih hs h

end FirstPass

/-! ## The second pass -/

section SecondPass

variable {back : Nat → List Nat} {unseen stack : List Nat}

/-- Once a new node is found, the pass ends without a second one exactly if none stands on the
stack. -/
theorem sweep_found (h : ∀ u ∈ stack, u ∈ unseen) :
    sweep back unseen true stack = stack.head?.elim (.ok unseen) .error := by
  cases stack with
  | nil => rw [sweep, List.head?_nil, Option.elim_none]
  | cons m rest => rw [sweep, dif_pos (h m (by simp)), if_pos rfl, List.head?_cons, Option.elim_some]

theorem sweep_unseen {n : Nat} (hn : n ∈ unseen) :
    sweep back unseen false [n] =
      (pushed (unseen.erase n) (back n)).head?.elim (.ok (unseen.erase n)) .error := by
  rw [sweep, dif_pos hn, if_neg Bool.false_ne_true, List.append_nil]
  exact sweep_found fun u hu => (mem_pushed.mp hu).2

/-- **The second pass** over a list of unseen nodes goes through exactly if each is led to by nodes
that stand before it in the list. -/
theorem sweepAll_ok {rest unseen' : List Nat} (hnodup : rest.Nodup) (hunseen : unseen.Nodup)
    (hsub : ∀ n ∈ rest, n ∈ unseen) (h : sweepAll back unseen rest = .ok unseen') :
    ∀ before n behind, rest = before ++ n :: behind →
      ∀ u ∈ back n, u ∈ unseen → u ∈ before ∨ u = n := by
  induction rest generalizing unseen with
  | nil => simp
  | cons m rest ih =>
    rw [sweepAll, sweep_unseen (hsub m (by simp))] at h
    obtain ⟨hm, hnodup⟩ := List.nodup_cons.mp hnodup
    have herase : ∀ u, u ∈ unseen.erase m ↔ u ≠ m ∧ u ∈ unseen := fun u => hunseen.mem_erase_iff
    cases hp : pushed (unseen.erase m) (back m) with
    | cons x xs =>
      rw [hp] at h
      cases h
    | nil =>
      rw [hp] at h
      have hrest : ∀ n ∈ rest, n ∈ unseen.erase m := fun n hn =>
        (herase n).mpr ⟨fun he => hm (he ▸ hn), hsub n (List.mem_cons_of_mem m hn)⟩
      intro before n behind hsplit u hu huu
      cases before with
      | nil =>
        rw [List.nil_append, List.cons.injEq] at hsplit
        obtain ⟨rfl, -⟩ := hsplit
        by_contra hne
        have hmem : u ∈ pushed (unseen.erase m) (back m) :=
          mem_pushed.mpr ⟨hu, (herase u).mpr ⟨fun he => hne (.inr he), huu⟩⟩
        rw [hp] at hmem
        exact List.not_mem_nil hmem
      | cons x before =>
        rw [List.cons_append, List.cons.injEq] at hsplit
        obtain ⟨rfl, hsplit⟩ := hsplit
        by_cases hum : u = m
        · exact .inl (by simp [hum])
        · rcases ih hnodup (hunseen.erase m) hrest h before n behind hsplit u hu
            ((herase u).mpr ⟨hum, huu⟩) with hub | hun
          · exact .inl (List.mem_cons_of_mem m hub)
          · exact .inr hun

theorem sweepAll_error {rest : List Nat} {m : Nat} (hnodup : rest.Nodup) (hunseen : unseen.Nodup)
    (hsub : ∀ n ∈ rest, n ∈ unseen) (h : sweepAll back unseen rest = .error m) :
    ∃ before n behind, rest = before ++ n :: behind ∧ m ∈ back n ∧ m ∈ unseen ∧ m ≠ n ∧
      m ∉ before := by
  induction rest generalizing unseen with
  | nil => cases h
  | cons x rest ih =>
    rw [sweepAll, sweep_unseen (hsub x (by simp))] at h
    obtain ⟨hx, hnodup⟩ := List.nodup_cons.mp hnodup
    have herase : ∀ u, u ∈ unseen.erase x ↔ u ≠ x ∧ u ∈ unseen := fun u => hunseen.mem_erase_iff
    cases hp : pushed (unseen.erase x) (back x) with
    | cons y ys =>
      rw [hp] at h
      cases h
      have hmem : m ∈ pushed (unseen.erase x) (back x) := by simp [hp]
      obtain ⟨hback, hmu⟩ := mem_pushed.mp hmem
      obtain ⟨hne, hmu⟩ := (herase m).mp hmu
      exact ⟨[], x, rest, rfl, hback, hmu, hne, by simp⟩
    | nil =>
      rw [hp] at h
      have hrest : ∀ n ∈ rest, n ∈ unseen.erase x := fun n hn =>
        (herase n).mpr ⟨fun he => hx (he ▸ hn), hsub n (List.mem_cons_of_mem x hn)⟩
      obtain ⟨before, n, behind, rfl, hback, hmu, hne, hbefore⟩ :=
        ih hnodup (hunseen.erase x) hrest h
      obtain ⟨hmx, hmu⟩ := (herase m).mp hmu
      exact ⟨x :: before, n, behind, rfl, hback, hmu, hne, by simp [hmx, hbefore]⟩

end SecondPass

/-! ## Both passes -/

variable {g : Digraph}

theorem leads_successors : Leads g.successors = TransGen g.Arc := by
  have : (fun u v => v ∈ g.successors u) = g.Arc := by
    funext u v
    exact propext mem_successors
  rw [Leads, this]

theorem Closed.successors_nodes (hg : g.Closed) :
    ∀ u ∈ g.nodes, ∀ v ∈ g.successors u, v ∈ g.nodes := fun u _ v hv =>
  mem_nodes.mpr (hg u v (mem_successors.mp hv)).2

/-- What the first pass hands to the second: all nodes, each once and none its own neighbour, in the
order in which they were finished. -/
theorem finishAll_nodes (hg : g.Closed) {p : Progress}
    (h : finishAll g.successors ⟨g.nodes, []⟩ g.nodes = .ok p) :
    p.finished.Nodup ∧ (∀ n, n ∈ p.finished ↔ n < g.size) ∧ Ordered g.successors p.finished ∧
      ∀ n < g.size, ¬ g.Arc n n := by
  obtain ⟨hs, hsub, hstarts⟩ :=
    finishAll_ok hg.successors_nodes (Search.start g.nodes_nodup) h
  have hunseen : ∀ n, n ∉ p.unseen := fun n hn => hstarts n (hsub n hn) hn
  refine ⟨hs.finished_nodup, fun n => ⟨fun hn => ?_, fun hn => ?_⟩, hs.ordered, fun n hn harc => ?_⟩
  · exact mem_nodes.mp (hs.finished_nodes n hn).1
  · by_contra hfin
    exact hs.not_open n ⟨mem_nodes.mpr hn, hunseen n, hfin⟩
  · exact hs.loopless n (mem_nodes.mpr hn) (hunseen n) (mem_successors.mpr harc)

/-- **A node that is named lies on a cycle.** In the second pass it leads to a node that was finished
after it, so the first pass found a way back. -/
theorem cycleNode?_sound (hg : g.Closed) {n : Nat} (h : g.cycleNode? = some n) :
    n < g.size ∧ TransGen g.Arc n n := by
  rw [cycleNode?, order] at h
  cases hp : finishAll g.successors ⟨g.nodes, []⟩ g.nodes with
  | error e =>
    rw [hp] at h
    cases h
    obtain ⟨hn, hloop⟩ := finishAll_error hg.successors_nodes (Search.start g.nodes_nodup) hp
    exact ⟨mem_nodes.mp hn, .single (mem_successors.mp hloop)⟩
  | ok p =>
    obtain ⟨hnodup, hall, hordered, -⟩ := finishAll_nodes hg hp
    rw [hp] at h
    cases hq : sweepAll g.predecessors g.nodes p.finished with
    | ok _ =>
      simp only [hq] at h
      cases h
    | error e =>
      simp only [hq] at h
      cases h
      obtain ⟨before, m, behind, hsplit, hback, hnn, hne, hbefore⟩ := sweepAll_error hnodup
        g.nodes_nodup (fun u hu => mem_nodes.mpr ((hall u).mp hu)) hq
      have hn : n < g.size := mem_nodes.mp hnn
      have harc : g.Arc n m := mem_predecessors.mp hback
      refine ⟨hn, ?_⟩
      -- `n` was finished before `m`, so it stands behind `m`
      have hbehind : n ∈ behind := by
        have hmem := (hall n).mpr hn
        rw [hsplit] at hmem
        simpa [hbefore, hne] using hmem
      obtain ⟨earliest, later, rfl⟩ := List.append_of_mem hbehind
      rw [hsplit, ← List.cons_append, ← List.append_assoc] at hordered
      rcases hordered.drop.1 m (mem_successors.mpr harc) with hm | hm
      · rw [hsplit] at hnodup
        have := (List.nodup_cons.mp (List.nodup_append.mp hnodup).2.1).1
        exact absurd (List.mem_append_right _ (List.mem_cons_of_mem n hm)) this
      · rw [leads_successors] at hm
        exact .head harc hm

theorem idxOf_lt_idxOf {u v : Nat} {before behind : List Nat}
    (hv : v ∉ before) (hu : u ∈ before) :
    (before ++ v :: behind).idxOf u < (before ++ v :: behind).idxOf v := by
  rw [List.idxOf_append_of_mem hu, List.idxOf_append_of_notMem hv]
  have := List.idxOf_lt_length_of_mem hu
  omega

/-- Where both passes go through, the order of finishing puts every node before all that it leads
to. -/
theorem acyclic_of_order (hg : g.Closed) {nodes : List Nat} (h : g.order = .ok nodes) :
    g.Acyclic := by
  rw [order] at h
  cases hp : finishAll g.successors ⟨g.nodes, []⟩ g.nodes with
  | error e =>
    rw [hp] at h
    cases h
  | ok p =>
    obtain ⟨hnodup, hall, -, hloop⟩ := finishAll_nodes hg hp
    rw [hp] at h
    cases hq : sweepAll g.predecessors g.nodes p.finished with
    | error e =>
      simp only [hq] at h
      cases h
    | ok _ =>
      have hsweep := sweepAll_ok hnodup g.nodes_nodup
        (fun u hu => mem_nodes.mpr ((hall u).mp hu)) hq
      have hstep : ∀ u v, g.Arc u v → p.finished.idxOf u < p.finished.idxOf v := by
        intro u v harc
        obtain ⟨hu, hv⟩ := hg u v harc
        obtain ⟨before, behind, hsplit⟩ := List.append_of_mem ((hall v).mpr hv)
        have hne : u ≠ v := fun he => hloop v hv (he ▸ harc)
        have hub := (hsweep before v behind hsplit u (mem_predecessors.mpr harc)
          (mem_nodes.mpr hu)).resolve_right hne
        rw [hsplit] at hnodup ⊢
        have hvb : v ∉ before := fun hvb =>
          (List.nodup_append.mp hnodup).2.2 v hvb v (by simp) rfl
        exact idxOf_lt_idxOf hvb hub
      intro n hn
      have hlt : ∀ m, TransGen g.Arc n m → p.finished.idxOf n < p.finished.idxOf m := by
        intro m hm
        induction hm with
        | single harc => exact hstep _ _ harc
        | tail _ harc ih => exact Nat.lt_trans ih (hstep _ _ harc)
      exact Nat.lt_irrefl _ (hlt n hn)

/-- **The search is exact**: no node is named exactly where no node leads back to itself. -/
theorem cycleNode?_eq_none_iff (hg : g.Closed) : g.cycleNode? = none ↔ g.Acyclic := by
  constructor
  · intro h
    rw [cycleNode?] at h
    cases ho : g.order with
    | error n =>
      rw [ho] at h
      cases h
    | ok nodes => exact acyclic_of_order hg ho
  · intro h
    cases hn : g.cycleNode? with
    | none => rfl
    | some n => exact absurd (cycleNode?_sound hg hn).2 (h n)

end BuildPlan.Digraph
