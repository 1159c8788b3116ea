import BuildPlan.Project.Locate
import BuildPlan.Proofs.Presence

/-!
# The project around a directory

The paths above a path come to an end after as many steps as it has components, the root not
counted. The manifest of a project is found in the nearest of them that has one, and not found
exactly if none has (`locate_nearest`). So the search ends with the same project wherever in it
it starts.
-/

namespace BuildPlan

namespace Text

theorem length_split_le (sep : Char) (cs : List Char) : (split sep cs).length ≤ cs.length + 1 := by
  induction cs with
  | nil => exact le_refl 1
  | cons c cs ih =>
    by_cases hc : c = sep
    · rw [split, if_pos hc, List.length_cons, List.length_cons]
      exact Nat.succ_le_succ ih
    · obtain ⟨part, rest, hsplit, hcons⟩ := split_cons_of_ne hc cs
      rw [hsplit] at ih
      rw [hcons]
      exact ih.trans (Nat.le_succ _)

end Text

namespace Path

open BuildPlan.Text (split)

/-! ## The paths above a path -/

/-- The path that is so many steps above another one, if that goes so far. -/
def above? : (steps : Nat) → String → Option String
  | 0, path => some path
  | n + 1, path => (parent? path).bind (above? n)

/-- How many paths are above a path: one for each component but the root. -/
def depth (path : String) : Nat :=
  (components path).countP (· != .root)

theorem dotted_iff {path : String} : (parts path).dotted = true ↔ lead path = [.current] := by
  rw [← (parts_spec path).1]
  cases habs : isAbsolute path with
  | true =>
    obtain ⟨cs, hcs⟩ := toList_of_absolute habs
    rw [parts_of_absolute hcs]
    simp [Parts.lead]
  | false =>
    by_cases hdot : (Text.split '/' path.toList).head? = some ['.']
    · obtain ⟨rest, hrest⟩ := List.head?_eq_some_iff.mp hdot
      rw [parts_of_dotted habs hrest]
      simp [Parts.lead]
    · rw [parts_of_plain habs hdot]
      simp [Parts.lead]

theorem parent?_eq_none_iff_steps {path : String} :
    parent? path = none ↔ steps path = [] ∧ lead path ≠ [.current] := by
  rw [← (parts_spec path).2, ← stepsOf_dropIdleEnd, dropIdleEnd, parent?, Ne, ← dotted_iff]
  cases hrest : (parts path).rest.reverse.dropWhile isIdle with
  | nil => cases (parts path).dotted <;> simp [stepsOf]
  | cons last before =>
    have hlast : isIdle last = false := by
      have hhead := List.head?_dropWhile_not isIdle (parts path).rest.reverse
      rw [hrest] at hhead
      simpa using hhead
    rw [List.reverse_cons, stepsOf_append, stepsOf_cons_of_not_idle hlast]
    simp

/-- There is nothing above the root and above the empty path, and only there. -/
theorem parent?_eq_none_iff {path : String} :
    parent? path = none ↔ components path = [] ∨ components path = [.root] := by
  have hsteps : .root ∉ steps path := fun hroot => isStep_of_mem_steps hroot
  rw [parent?_eq_none_iff_steps, components_eq, lead]
  split_ifs
  · simp
  · simp
  · cases hpath : steps path with
    | nil => simp
    | cons c cs =>
      rw [hpath] at hsteps
      have hc : c ≠ .root := fun hc => hsteps (hc ▸ List.mem_cons_self)
      simp [hc]

theorem components_of_parent? {path parent : String} (h : parent? path = some parent) :
    ∃ c, c ≠ .root ∧ components path = components parent ++ [c] := by
  have hsome : ¬ (components path = [] ∨ components path = [.root]) := by
    rw [← parent?_eq_none_iff, h]
    simp
  obtain ⟨hne, hroot⟩ := not_or.mp hsome
  refine ⟨(components path).getLast hne, fun hlast => hroot ?_, ?_⟩
  · -- the root stands nowhere but in front
    have hmem := hlast ▸ List.getLast_mem hne
    rcases List.eq_nil_or_concat (steps path) with hsteps | ⟨front, c, hsteps⟩
    · rw [components_eq, hsteps, List.append_nil] at hmem ⊢
      rw [lead] at hmem ⊢
      split_ifs at hmem ⊢ <;> simp at hmem ⊢
    · have hc : c = .root := by
        rw [← hlast]
        simp [components_eq, hsteps]
      have hmem : .root ∈ steps path := by simp [hsteps, hc]
      exact (isStep_of_mem_steps hmem).elim
  · rw [components_parent? h, List.dropLast_concat_getLast]

theorem components_of_above? {n : Nat} {path top : String} (h : above? n path = some top) :
    ∃ below : List Component, below.length = n ∧ .root ∉ below ∧
      components path = components top ++ below := by
  induction n generalizing path with
  | zero =>
    obtain rfl := Option.some.inj h
    exact ⟨[], rfl, List.not_mem_nil, (List.append_nil _).symm⟩
  | succ n ih =>
    obtain ⟨parent, hparent, htop⟩ := Option.bind_eq_some_iff.mp h
    obtain ⟨below, hlength, hroot, hbelow⟩ := ih htop
    obtain ⟨c, hc, hpath⟩ := components_of_parent? hparent
    refine ⟨below ++ [c], by rw [List.length_append, hlength, List.length_singleton], ?_, ?_⟩
    · simpa [hroot] using hc.symm
    · rw [hpath, hbelow, List.append_assoc]

theorem depth_of_parent? {path parent : String} (h : parent? path = some parent) :
    depth path = depth parent + 1 := by
  obtain ⟨c, hc, hpath⟩ := components_of_parent? h
  rw [depth, hpath, List.countP_append, List.countP_singleton, if_pos (by simpa using hc), depth]

theorem parent?_eq_none_iff_depth {path : String} : parent? path = none ↔ depth path = 0 := by
  constructor
  · rw [parent?_eq_none_iff, depth]
    rintro (h | h) <;> rw [h] <;> rfl
  · intro h
    rw [Option.eq_none_iff_forall_ne_some]
    intro parent hparent
    rw [depth_of_parent? hparent] at h
    exact Nat.succ_ne_zero _ h

theorem depth_of_above? {n : Nat} {path top : String} (h : above? n path = some top) :
    depth path = depth top + n := by
  induction n generalizing path with
  | zero => rw [Option.some.inj h, Nat.add_zero]
  | succ n ih =>
    obtain ⟨parent, hparent, htop⟩ := Option.bind_eq_some_iff.mp h
    rw [depth_of_parent? hparent, ih htop, Nat.add_assoc]

/-- **The paths above a path come to an end**, after as many steps as its depth. -/
theorem isSome_above?_iff {n : Nat} {path : String} : (above? n path).isSome ↔ n ≤ depth path := by
  induction n generalizing path with
  | zero => simp [above?]
  | succ n ih =>
    rw [above?]
    cases hparent : parent? path with
    | none => simp [parent?_eq_none_iff_depth.mp hparent]
    | some parent =>
      rw [Option.bind_some, ih, depth_of_parent? hparent]
      exact Nat.succ_le_succ_iff.symm

theorem exists_top (path : String) :
    ∃ top, above? (depth path) path = some top ∧ parent? top = none ∧
      (components top = [] ∨ components top = [.root]) := by
  obtain ⟨top, htop⟩ := Option.isSome_iff_exists.mp (isSome_above?_iff.mpr (le_refl (depth path)))
  have hdepth := depth_of_above? htop
  have hend : parent? top = none := parent?_eq_none_iff_depth.mpr (by omega)
  exact ⟨top, htop, hend, parent?_eq_none_iff.mp hend⟩

theorem countP_stepsOf_le (parts : List (List Char)) :
    (stepsOf parts).countP (· != .root) ≤ parts.length := by
  refine List.countP_le_length.trans ?_
  rw [stepsOf, List.length_map]
  exact List.length_filter_le _ _

theorem depth_le_length (path : String) : depth path ≤ path.length := by
  rw [depth, components_eq, List.countP_append, steps, ← String.length_toList]
  cases habs : isAbsolute path with
  | true =>
    obtain ⟨cs, hcs⟩ := toList_of_absolute habs
    have hsteps := (countP_stepsOf_le (split '/' cs)).trans (Text.length_split_le '/' cs)
    rw [isAbsolute_iff_lead.mp habs, hcs, split, if_pos rfl, stepsOf_cons_idle isIdle_nil]
    simpa using hsteps
  | false =>
    cases hcs : path.toList with
    | nil => simp [lead, habs, hcs, split, stepsOf, isIdle_nil]
    | cons c cs =>
      have hc : c ≠ '/' := by
        rintro rfl
        simp [isAbsolute, hcs] at habs
      obtain ⟨part, rest, hsplit, hfirst⟩ := Text.split_cons_of_ne hc cs
      have hlength := Text.length_split_le '/' cs
      rw [hsplit, List.length_cons] at hlength
      rw [lead, habs, if_neg Bool.false_ne_true, hcs, hfirst, List.head?_cons]
      split_ifs with hdot
      · -- a leading `.` counts for itself and is no step
        rw [Option.some.inj hdot, stepsOf_cons_idle rfl]
        have hsteps := countP_stepsOf_le rest
        simp
        omega
      · have hsteps := countP_stepsOf_le ((c :: part) :: rest)
        simp at hsteps ⊢
        omega

end Path

namespace Project

open BuildPlan.Path (above? components depth)

/-! ## The search -/

theorem getElem?_ancestorsFrom (fuel n : Nat) (path : String) :
    (ancestorsFrom fuel path)[n]? = if n < fuel then above? n path else none := by
  induction fuel generalizing n path with
  | zero => rfl
  | succ fuel ih =>
    rw [ancestorsFrom]
    cases hparent : Path.parent? path with
    | none => cases n <;> simp [above?, hparent]
    | some parent => cases n <;> simp [above?, hparent, ih]

theorem getElem?_ancestors (n : Nat) (path : String) : (ancestors path)[n]? = above? n path := by
  rw [ancestors, getElem?_ancestorsFrom]
  split_ifs with hn
  · rfl
  · have hdepth := Path.depth_le_length path
    have hnone : ¬ (above? n path).isSome := by
      rw [Path.isSome_above?_iff]
      omega
    exact (Option.not_isSome_iff_eq_none.mp hnone).symm

def HasManifest (t : FileTree) (dir : String) : Prop :=
  t.pathExists (Path.join dir projectFile) = true

instance (t : FileTree) (dir : String) : Decidable (HasManifest t dir) :=
  inferInstanceAs (Decidable (_ = true))

/-- The nearest directory with a manifest, so many steps above the start. -/
structure Nearest (t : FileTree) (start : String) (n : Nat) (dir : String) : Prop where
  above : above? n start = some dir
  holds : HasManifest t dir
  first : ∀ m < n, ∀ nearer ∈ above? m start, ¬ HasManifest t nearer

variable {t : FileTree} {start root path : String} {n : Nat}

theorem find?_ancestors_eq_some_iff {dir : String} :
    (ancestors start).find? (fun d => t.pathExists (Path.join d projectFile)) = some dir ↔
      ∃ n, Nearest t start n dir := by
  rw [List.find?_eq_some_iff_getElem]
  constructor
  · rintro ⟨hholds, n, hn, hdir, hfirst⟩
    refine ⟨n, by rw [← getElem?_ancestors, List.getElem?_eq_getElem hn, hdir], hholds,
      fun m hm nearer hnearer => ?_⟩
    rw [← getElem?_ancestors, List.getElem?_eq_getElem (hm.trans hn)] at hnearer
    have hnot := hfirst m hm
    rw [Option.some.inj hnearer] at hnot
    simpa [HasManifest] using hnot
  · rintro ⟨n, habove, hholds, hfirst⟩
    rw [← getElem?_ancestors] at habove
    obtain ⟨hn, hdir⟩ := List.getElem?_eq_some_iff.mp habove
    refine ⟨hholds, n, hn, hdir, fun m hm => ?_⟩
    have hnot := hfirst m hm _
      ((getElem?_ancestors m start).symm.trans (List.getElem?_eq_getElem (hm.trans hn)))
    simpa [HasManifest] using hnot

theorem locate_eq :
    locate t start =
      match (ancestors start).find? (fun d => t.pathExists (Path.join d projectFile)) with
      | some dir => .ok (Path.join dir projectFile)
      | none => .error (.notFound start) := by
  rw [locate, List.find?_map, Function.comp_def]
  cases (ancestors start).find? (fun d => t.pathExists (Path.join d projectFile)) <;> rfl

theorem locate_eq_ok_iff :
    locate t start = .ok path ↔
      ∃ n dir, Nearest t start n dir ∧ path = Path.join dir projectFile := by
  rw [locate_eq]
  cases hfound : (ancestors start).find? (fun d => t.pathExists (Path.join d projectFile)) with
  | none =>
    refine ⟨nofun, fun ⟨n, dir, hnearest, _⟩ => ?_⟩
    rw [find?_ancestors_eq_some_iff.mpr ⟨n, hnearest⟩] at hfound
    cases hfound
  | some dir =>
    obtain ⟨n, hnearest⟩ := find?_ancestors_eq_some_iff.mp hfound
    constructor
    · exact fun h => ⟨n, dir, hnearest, (Except.ok.inj h).symm⟩
    · rintro ⟨m, other, hother, hpath⟩
      rw [find?_ancestors_eq_some_iff.mpr ⟨m, hother⟩] at hfound
      rw [hpath, Option.some.inj hfound]

theorem locate_eq_error_iff {e : LoadError} :
    locate t start = .error e ↔
      e = .notFound start ∧ ∀ n dir, above? n start = some dir → ¬ HasManifest t dir := by
  rw [locate_eq]
  cases hfound : (ancestors start).find? (fun d => t.pathExists (Path.join d projectFile)) with
  | some dir =>
    obtain ⟨n, hnearest⟩ := find?_ancestors_eq_some_iff.mp hfound
    exact ⟨nofun, fun ⟨_, hnone⟩ => absurd hnearest.holds (hnone n dir hnearest.above)⟩
  | none =>
    have hnone : ∀ n dir, above? n start = some dir → ¬ HasManifest t dir := by
      intro n dir hdir
      rw [← getElem?_ancestors] at hdir
      simpa [HasManifest] using List.find?_eq_none.mp hfound dir (List.mem_of_getElem? hdir)
    exact ⟨fun h => ⟨(Except.error.inj h).symm, hnone⟩, fun ⟨he, _⟩ => by rw [he]⟩

/-! ## Starting elsewhere in the project -/

theorem locate_of_hasManifest (h : HasManifest t root) :
    locate t root = .ok (Path.join root projectFile) :=
  locate_eq_ok_iff.mpr ⟨0, root, ⟨rfl, h, fun _ hm => absurd hm (Nat.not_lt_zero _)⟩, rfl⟩

theorem isName_projectFile : Path.IsName projectFile := by decide

theorem components_manifest (dir : String) :
    components (Path.join dir projectFile) = components dir ++ [.name projectFile] :=
  Path.components_join_name isName_projectFile

theorem exists_parent_manifest (dir : String) :
    ∃ found, Path.parent? (Path.join dir projectFile) = some found ∧
      components found = components dir := by
  cases hparent : Path.parent? (Path.join dir projectFile) with
  | none =>
    rw [Path.parent?_eq_none_iff, components_manifest] at hparent
    rcases hparent with h | h
    · simp at h
    · rw [List.append_eq_singleton_iff] at h
      simp at h
  | some found =>
    refine ⟨found, rfl, ?_⟩
    rw [Path.components_parent? hparent, components_manifest, List.dropLast_concat]

/-- A directory has its manifest by whatever path it is named, if only a tree can hold that path. -/
theorem HasManifest.congr {dir : String} (h : HasManifest t root)
    (hsame : components dir = components root)
    (hpath : FileTree.checkPath (Path.join dir projectFile) = .ok ()) : HasManifest t dir := by
  refine FileTree.pathExists_iff.mpr ⟨hpath, (FileTree.pathExists_iff.mp h).2.congr ?_ ?_⟩
  · exact FileTree.reached_congr (by rw [components_manifest, components_manifest, hsame])
  · rw [Path.lastPart_join isName_projectFile.isAbsolute,
      Path.lastPart_join isName_projectFile.isAbsolute]

/-- **The nearest manifest is found, from anywhere in its project.** The way up from a directory
takes off one component after another, and ends at the root or at the empty path. The search returns
the manifest of the nearest directory on this way that has one, and fails exactly if none has, with
an error that names the start. So it returns what it returns from that directory itself, and the
parent of what it returns, which is where a project is generated, is the directory. If the way leads
to the directory by another path than the one it is named by, and not by one too long to be looked
up, the two results are the same path, perhaps written otherwise. -/
theorem locate_nearest (t : FileTree) (start : String) :
    (∀ n, (above? n start).isSome ↔ n ≤ depth start) ∧
    (∀ n dir, above? n start = some dir → ∃ below : List Component, below.length = n ∧
      components start = components dir ++ below) ∧
    (∃ top, above? (depth start) start = some top ∧ Path.parent? top = none ∧
      (components top = [] ∨ components top = [.root])) ∧
    (∀ path, locate t start = .ok path ↔
      ∃ n dir, Nearest t start n dir ∧ path = Path.join dir projectFile) ∧
    (∀ e, locate t start = .error e ↔
      e = .notFound start ∧ ∀ n dir, above? n start = some dir → ¬ HasManifest t dir) ∧
    (∀ n root, Nearest t start n root → locate t start = locate t root ∧
      ∃ path found, locate t root = .ok path ∧ Path.parent? path = some found ∧
        components found = components root) ∧
    (∀ n dir root, above? n start = some dir → components dir = components root →
      HasManifest t root → FileTree.checkPath (Path.join dir projectFile) = .ok () →
      (∀ m < n, ∀ nearer ∈ above? m start, ¬ HasManifest t nearer) →
      ∃ path path', locate t start = .ok path ∧ locate t root = .ok path' ∧
        components path = components path') := by
  refine ⟨fun n => Path.isSome_above?_iff, fun n dir hdir => ?_, Path.exists_top start,
    fun path => locate_eq_ok_iff, fun e => locate_eq_error_iff, fun n root hnearest => ?_,
    fun n dir root habove hsame hroot hpath hfirst => ?_⟩
  · obtain ⟨below, hlength, -, hbelow⟩ := Path.components_of_above? hdir
    exact ⟨below, hlength, hbelow⟩
  · have hlocate := locate_eq_ok_iff.mpr ⟨n, root, hnearest, rfl⟩
    have hself := locate_of_hasManifest hnearest.holds
    obtain ⟨found, hfound, hcomponents⟩ := exists_parent_manifest root
    exact ⟨hlocate.trans hself.symm, _, found, hself, hfound, hcomponents⟩
  · have hnearest : Nearest t start n dir := ⟨habove, hroot.congr hsame hpath, hfirst⟩
    refine ⟨_, _, locate_eq_ok_iff.mpr ⟨n, dir, hnearest, rfl⟩, locate_of_hasManifest hroot, ?_⟩
    rw [components_manifest, components_manifest, hsame]

namespace Sample

/-- A project with a build directory in it. -/
def tree : FileTree where
  items := [(["w"], .directory), (["w", "p"], .directory), (["w", "p", "kiln.kdl"], .file [] false),
    (["w", "p", "out"], .directory), (["w", "p", "out", "ld"], .directory)]

/-- From a build directory, with whatever idle parts its path is written, the project is found, and
found by another path. -/
theorem locate_nearest_tree :
    locate tree "/w//p/out/./ld/" = locate tree "/w//p" ∧
      ∃ path path', locate tree "/w//p/out/./ld/" = .ok path ∧ locate tree "/w/p/" = .ok path' ∧
        components path = components path' :=
  have habove : above? 2 "/w//p/out/./ld/" = some "/w//p" := by decide +kernel
  have hfirst : ∀ m < 2, ∀ nearer ∈ above? m "/w//p/out/./ld/", ¬ HasManifest tree nearer := by
    decide +kernel
  have hnearest : Nearest tree "/w//p/out/./ld/" 2 "/w//p" := ⟨habove, by decide +kernel, hfirst⟩
  have ⟨_, _, _, _, _, hsame, hother⟩ := locate_nearest tree "/w//p/out/./ld/"
  ⟨(hsame 2 "/w//p" hnearest).1,
    hother 2 "/w//p" "/w/p/" habove (by decide) (by decide +kernel) (by decide +kernel) hfirst⟩

end Sample

end Project

end BuildPlan
