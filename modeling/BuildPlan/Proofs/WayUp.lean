import BuildPlan.Proofs.Placement
import Mathlib.Algebra.BigOperators.Group.List.Basic
import Mathlib.Algebra.Ring.Int.Defs
import Mathlib.Data.List.Induction

/-!
# The way from a build directory to the project

A build directory reaches the project over as many `..` as its path has components. That is the way
back exactly if every component goes down: one that goes up, or a `.` in front, is counted too, and
the way then leads beyond the project (`wayUp_leads_back_iff`).
-/

namespace BuildPlan

namespace Path

/-! ## Paths worked off -/

/-- One more component behind those that are worked off: a `.` leads nowhere, and a `..` takes back
the name in front of it, if there is one. -/
def resolveStep (done : List Component) : Component → List Component
  | .root => [.root]
  | .current => done
  | .name s => done ++ [.name s]
  | .parent =>
    match done.getLast? with
    | some (.name _) => done.dropLast
    | some .root => done
    | _ => done ++ [.parent]

/-- What a path means without a look at any directory: nothing where it leads to its start. -/
def resolve (path : String) : List Component :=
  (components path).foldl resolveStep []

/-- How far a component leads down. -/
def descent : Component → Int
  | .name _ => 1
  | .parent => -1
  | _ => 0

theorem descent_le_one (c : Component) : descent c ≤ 1 := by
  cases c <;> simp [descent]

theorem descent_eq_one_iff {c : Component} : descent c = 1 ↔ ∃ s, c = .name s := by
  cases c <;> simp [descent]

theorem resolveStep_descent {done : List Component} {c : Component} (hdone : .root ∉ done)
    (hc : c ≠ .root) :
    .root ∉ resolveStep done c ∧
      ((resolveStep done c).map descent).sum = (done.map descent).sum + descent c := by
  cases c with
  | root => exact absurd rfl hc
  | current => exact ⟨hdone, by simp [resolveStep, descent]⟩
  | name s => exact ⟨by simpa [resolveStep] using hdone, by simp [resolveStep]⟩
  | parent =>
    rw [resolveStep]
    cases hlast : done.getLast? with
    | none => exact ⟨by simpa using hdone, by simp⟩
    | some last =>
      obtain ⟨front, rfl⟩ := List.getLast?_eq_some_iff.mp hlast
      have hfront : .root ∉ front := fun h => hdone (List.mem_append_left _ h)
      cases last with
      | root => exact absurd (by simp) hdone
      | name s => exact ⟨by simpa using hfront, by simp [descent]⟩
      | current => exact ⟨by simpa using hdone, by simp [add_assoc]⟩
      | parent => exact ⟨by simpa using hdone, by simp [add_assoc]⟩

/-- **Working off a path** keeps how far it leads down. -/
theorem foldl_resolveStep_descent {cs : List Component} (hcs : .root ∉ cs)
    {done : List Component} (hdone : .root ∉ done) :
    ((cs.foldl resolveStep done).map descent).sum =
      (done.map descent).sum + (cs.map descent).sum := by
  induction cs generalizing done with
  | nil => simp
  | cons c cs ih =>
    obtain ⟨hc, hcs⟩ := not_or.mp fun h => hcs (List.mem_cons.mpr h)
    obtain ⟨hstep, hsum⟩ := resolveStep_descent hdone (Ne.symm hc)
    rw [List.foldl_cons, ih hcs hstep, hsum, List.map_cons, List.sum_cons, add_assoc]

theorem root_mem_foldl_resolveStep {done : List Component} (hdone : .root ∈ done)
    (cs : List Component) : .root ∈ cs.foldl resolveStep done := by
  induction cs generalizing done with
  | nil => exact hdone
  | cons c cs ih =>
    refine ih ?_
    cases c with
    | root => exact List.mem_singleton_self _
    | current => exact hdone
    | name s => exact List.mem_append_left _ hdone
    | parent =>
      rw [resolveStep]
      split
      · next s hlast =>
        obtain ⟨front, rfl⟩ := List.getLast?_eq_some_iff.mp hlast
        simpa using hdone
      · exact hdone
      · exact List.mem_append_left _ hdone

theorem foldl_resolveStep_names {cs : List Component} (hcs : ∀ c ∈ cs, ∃ s, c = .name s)
    (done : List Component) : cs.foldl resolveStep done = done ++ cs := by
  induction cs generalizing done with
  | nil => simp
  | cons c cs ih =>
    obtain ⟨⟨s, rfl⟩, hrest⟩ := List.forall_mem_cons.mp hcs
    rw [List.foldl_cons, ih hrest, resolveStep, List.append_assoc, List.singleton_append]

theorem foldl_resolveStep_parents {done : List Component} (hdone : ∀ c ∈ done, ∃ s, c = .name s) :
    (List.replicate done.length Component.parent).foldl resolveStep done = [] := by
  induction done using List.reverseRecOn with
  | nil => rfl
  | append_singleton front last ih =>
    obtain ⟨s, rfl⟩ := hdone last (by simp)
    have hstep : resolveStep (front ++ [.name s]) .parent = front := by simp [resolveStep]
    rw [List.length_append, List.length_singleton, List.replicate_succ, List.foldl_cons, hstep]
    exact ih fun c hc => hdone c (List.mem_append_left _ hc)

theorem sum_descent_le (cs : List Component) : (cs.map descent).sum ≤ cs.length := by
  induction cs with
  | nil => simp
  | cons c cs ih =>
    have hc := descent_le_one c
    rw [List.map_cons, List.sum_cons, List.length_cons]
    omega

theorem names_of_sum_descent {cs : List Component} (h : (cs.map descent).sum = cs.length) :
    ∀ c ∈ cs, ∃ s, c = .name s := by
  induction cs with
  | nil => simp
  | cons c cs ih =>
    have hc := descent_le_one c
    have hcs := sum_descent_le cs
    rw [List.map_cons, List.sum_cons, List.length_cons] at h
    exact List.forall_mem_cons.mpr ⟨descent_eq_one_iff.mp (by omega), ih (by omega)⟩

/-- **As many steps up as a path has components** lead back to its start exactly if each component
leads down. -/
theorem foldl_resolveStep_back_iff {cs : List Component} :
    (cs ++ List.replicate cs.length Component.parent).foldl resolveStep [] = [] ↔
      ∀ c ∈ cs, ∃ s, c = .name s := by
  constructor
  · intro h
    have hroot : .root ∉ cs := by
      intro hroot
      obtain ⟨before, after, rfl⟩ := List.append_of_mem hroot
      rw [List.append_assoc, List.foldl_append, List.cons_append, List.foldl_cons] at h
      have hmem := root_mem_foldl_resolveStep (List.mem_singleton_self Component.root)
        (after ++ List.replicate (before ++ Component.root :: after).length Component.parent)
      exact List.ne_nil_of_mem hmem h
    refine names_of_sum_descent ?_
    have hway : Component.root ∉ cs ++ List.replicate cs.length Component.parent := by
      simpa using hroot
    have hsum := foldl_resolveStep_descent hway List.not_mem_nil
    rw [h] at hsum
    simp [descent] at hsum
    omega
  · intro h
    rw [List.foldl_append, foldl_resolveStep_names h, List.nil_append]
    exact foldl_resolveStep_parents h

end Path

/-! ## Build directories -/

namespace Generation

open BuildPlan.Path (components isAbsolute resolve)

section

variable {p : Project} {tools : ToolPaths} {inputs : Inputs} {tc : Toolchain}

theorem components_buildDirectory (hout : p.general.out ≠ "") :
    components (p.general.out ++ "/" ++ tc.tag) = components p.general.out ++ [.name tc.tag] := by
  rw [Path.components_below, Path.components_append_slash hout, Toolchain.tag,
    (isName_tag tc.platform tc.profile).steps]

theorem components_join_wayUp {i : Graph.Input} (h : components i.buildDirectory ≠ []) :
    components (Path.join i.buildDirectory i.wayUp) =
      components i.buildDirectory ++
        List.replicate (components i.buildDirectory).length .parent := by
  have hdir : i.buildDirectory ≠ "" := by
    intro hempty
    rw [hempty] at h
    exact h (by decide)
  have hlength : max (components i.buildDirectory).length 1 =
      (components i.buildDirectory).length :=
    max_eq_left (List.length_pos_iff.mpr h)
  have hway : i.wayUp = Text.joinWith "/"
      ((List.replicate (components i.buildDirectory).length ['.', '.']).map String.ofList) := by
    rw [Graph.Input.wayUp, hlength, List.map_replicate]
  have hparts : ∀ part ∈ List.replicate (components i.buildDirectory).length ['.', '.'],
      '/' ∉ part := by
    intro part hpart
    rw [List.eq_of_mem_replicate hpart]
    decide
  obtain ⟨n, hn⟩ := Nat.exists_eq_succ_of_ne_zero (List.length_pos_iff.mpr h).ne'
  have hrel : isAbsolute i.wayUp = false := by
    rw [hway]
    rw [hn] at hparts ⊢
    have hsplit := Text.split_joinWith (List.cons_ne_nil _ _) hparts
    exact Path.isAbsolute_of_split hsplit (List.cons_ne_nil _ _)
  rw [Path.components_join hdir hrel, hway, Path.steps_joinWith hparts, Path.stepsOf,
    List.filter_replicate_of_pos rfl, List.map_replicate]
  rfl

/-- **When the way up leads back.** From a build directory the way up leads back to the project
exactly if the output directory is named by names alone: its path is neither empty nor absolute, has
no `.` in front, and never goes up. -/
theorem wayUp_leads_back_iff :
    resolve (Path.join (inputFor p tools inputs tc).buildDirectory
        (inputFor p tools inputs tc).wayUp) = [] ↔
      p.general.out ≠ "" ∧ ∀ c ∈ components p.general.out, ∃ name, c = .name name := by
  have hdir : (inputFor p tools inputs tc).buildDirectory = p.general.out ++ "/" ++ tc.tag := rfl
  by_cases hempty : p.general.out = ""
  · have hroot : .root ∈ components (inputFor p tools inputs tc).buildDirectory := by
      rw [hdir, hempty, Path.components_below]
      exact List.mem_append_left _ (by decide)
    rw [resolve, components_join_wayUp (List.ne_nil_of_mem hroot),
      Path.foldl_resolveStep_back_iff]
    constructor
    · intro h
      obtain ⟨_, hname⟩ := h _ hroot
      cases hname
    · exact fun h => absurd hempty h.1
  · have hcs : components (p.general.out ++ "/" ++ tc.tag) =
        components p.general.out ++ [.name tc.tag] := components_buildDirectory hempty
    rw [resolve, components_join_wayUp (by rw [hdir, hcs]; simp),
      Path.foldl_resolveStep_back_iff, hdir, hcs]
    simp [hempty, or_imp, forall_and]

end

namespace Sample

/-- The sample, built below `out` with a `.` in front. -/
def dotted : Project := { project with general := { project.general with out := "./out" } }

/-- The `.` is counted as a step down, so the way up leads beyond the project. -/
theorem wayUp_leads_astray :
    dotted.check = .ok () ∧ isAbsolute dotted.general.out = false ∧
      let i := inputFor dotted tools (inputs [] []) { toolchain .debug with platform := .linux }
      i.buildDirectory = "./out/ld" ∧ i.wayUp = "../../.." ∧
        resolve (Path.join i.buildDirectory i.wayUp) = [.parent] ∧
        resolve (Path.join i.buildDirectory i.wayUp) ≠ [] := by
  decide +kernel

end Sample

end Generation

end BuildPlan
