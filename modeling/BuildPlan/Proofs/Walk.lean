import BuildPlan.Proofs.Enumeration

/-!
# What a walk finds

A walk goes down from a location and finds whatever stands below it behind directories, each once:
it takes a directory before what is in it and names in order, so the names that lead to what it
finds come in the order of their bytes, name by name (`enumerates_descend`). Going down, the walk
writes these names behind the path that it starts with (`walkFrom_eq_map_descend`).
-/

namespace BuildPlan.FileTree

open BuildPlan.Path (components IsName)

variable {t : FileTree} {loc : Location} {names : List String} {item : Item} {path : String}

/-- The item stands where the names lead from a location, with directories all the way. -/
inductive Below (t : FileTree) : Location → List String → Item → Prop
  | here {loc : Location} {item : Item} (h : t.at? loc = some item) : Below t loc [] item
  | inside {loc : Location} {name : String} {names : List String} {item : Item}
      (hdir : t.at? loc = some .directory) (h : Below t (loc ++ [name]) names item) :
      Below t loc (name :: names) item

theorem Below.at? (h : t.Below loc names item) : t.at? (loc ++ names) = some item := by
  induction h with
  | here h => rwa [List.append_nil]
  | inside _ _ ih => rwa [List.append_assoc] at ih

theorem Below.directory {name : String} (h : t.Below loc (names ++ [name]) item) :
    t.Below loc names .directory := by
  induction names generalizing loc with
  | nil =>
    cases h with
    | inside hdir _ => exact .here hdir
  | cons first names ih =>
    cases h with
    | inside hdir h => exact .inside hdir (ih h)

theorem Below.mem_children {name : String} (h : t.Below (loc ++ [name]) names item) :
    name ∈ t.children loc := by
  rw [mem_children_iff_isSome]
  cases h with
  | here h => rw [h]; rfl
  | inside hdir _ => rw [hdir]; rfl

theorem Below.isName (ht : t.WellNamed) (h : t.Below loc names item) : ∀ n ∈ names, IsName n := by
  induction h with
  | here => exact fun n hn => absurd hn List.not_mem_nil
  | inside _ h ih => exact List.forall_mem_cons.mpr ⟨(ht.child h.mem_children).1, ih⟩

/-! ## Paths that go down -/

def pathAlong (path : String) (names : List String) : String :=
  names.foldl Path.join path

theorem components_pathAlong (hnames : ∀ n ∈ names, IsName n) :
    components (pathAlong path names) = components path ++ names.map .name := by
  induction names generalizing path with
  | nil => exact (List.append_nil _).symm
  | cons name names ih =>
    obtain ⟨hname, hnames⟩ := List.forall_mem_cons.mp hnames
    rw [pathAlong, List.foldl_cons, ← pathAlong, ih hnames, Path.components_join_name hname,
      List.append_assoc]
    rfl

theorem Below.reached_pathAlong (ht : t.WellNamed) (h : t.Below loc names item)
    (hloc : t.reached path = .ok loc) : t.reached (pathAlong path names) = .ok (loc ++ names) := by
  induction h generalizing path with
  | here => rwa [List.append_nil]
  | inside hdir h ih =>
    have hdeeper := ih (reached_child ht hloc hdir h.mem_children)
    rwa [List.append_assoc] at hdeeper

/-! ## The walk by names -/

/-- What a walk finds, each with the names that lead to it. -/
def descend (t : FileTree) : (depth : Nat) → Location → List (List String × Item)
  | 0, _ => []
  | depth + 1, loc =>
    match t.at? loc with
    | none => []
    | some (.file data executable) => [([], .file data executable)]
    | some .directory =>
      ([], .directory) :: (t.children loc).flatMap fun name =>
        (t.descend depth (loc ++ [name])).map fun found => (name :: found.1, found.2)

theorem walkFrom_eq_map_descend (depth : Nat) (path : String) (loc : Location) :
    t.walkFrom depth path loc =
      (t.descend depth loc).map fun found => (pathAlong path found.1, found.2) := by
  induction depth generalizing path loc with
  | zero => rfl
  | succ depth ih =>
    rw [walkFrom, descend]
    cases t.at? loc with
    | none => rfl
    | some item =>
      cases item with
      | file data executable => rfl
      | directory =>
        simp only [List.map_cons, List.map_flatMap, List.map_map, ih]
        rfl

theorem below_of_mem_descend {depth : Nat} {found : List String × Item}
    (h : found ∈ t.descend depth loc) : t.Below loc found.1 found.2 := by
  induction depth generalizing loc found with
  | zero => cases h
  | succ depth ih =>
    rw [descend] at h
    split at h
    · cases h
    · rename_i hat
      rw [List.mem_singleton.mp h]
      exact .here hat
    · rename_i hat
      rcases List.mem_cons.mp h with rfl | h
      · exact .here hat
      · obtain ⟨name, -, h⟩ := List.mem_flatMap.mp h
        obtain ⟨found, hfound, rfl⟩ := List.mem_map.mp h
        exact .inside hat (ih hfound)

theorem exists_below_of_mem_walkFrom {depth : Nat} {found : String × Item}
    (h : found ∈ t.walkFrom depth path loc) :
    ∃ names, t.Below loc names found.2 ∧ found.1 = pathAlong path names := by
  rw [walkFrom_eq_map_descend] at h
  obtain ⟨found, hfound, rfl⟩ := List.mem_map.mp h
  exact ⟨found.1, below_of_mem_descend hfound, rfl⟩

/-- A walk that may go deeper than every location finds all that stands below. -/
theorem Below.mem_descend (h : t.Below loc names item) {depth : Nat}
    (hdepth : t.depthBound ≤ loc.length + depth) : (names, item) ∈ t.descend depth loc := by
  induction h generalizing depth with
  | @here loc item h =>
    cases depth with
    | zero => rw [at?_eq_none_of_deep hdepth] at h; cases h
    | succ depth =>
      rw [descend, h]
      cases item <;> exact List.mem_cons_self
  | @inside loc name names item hdir h ih =>
    cases depth with
    | zero => rw [at?_eq_none_of_deep hdepth] at hdir; cases hdir
    | succ depth =>
      have hdepth : t.depthBound ≤ (loc ++ [name]).length + depth := by
        rw [List.length_append, List.length_singleton]
        omega
      rw [descend, hdir]
      exact List.mem_cons_of_mem _ (List.mem_flatMap.mpr
        ⟨name, h.mem_children, List.mem_map.mpr ⟨(names, item), ih hdepth, rfl⟩⟩)

/-- The order of names by their bytes, name by name: what lies at a directory comes before what lies
in it, and what lies in it before what comes behind the directory. -/
def NamesBefore (names others : List String) : Prop :=
  names.map Text.toUtf8 < others.map Text.toUtf8

theorem namesBefore_cons {name other : String} {names others : List String} :
    NamesBefore (name :: names) (other :: others) ↔
      Text.Bytewise name other ∨ name = other ∧ NamesBefore names others := by
  rw [NamesBefore, List.map_cons, List.map_cons, List.cons_lt_cons_iff,
    Function.Injective.eq_iff fun _ _ h => Text.toUtf8_injective h]
  rfl

theorem pairwise_descend (ht : t.Distinct) (depth : Nat) (loc : Location) :
    (t.descend depth loc).Pairwise fun a b => NamesBefore a.1 b.1 := by
  induction depth generalizing loc with
  | zero => exact .nil
  | succ depth ih =>
    rw [descend]
    split
    · exact .nil
    · exact List.pairwise_singleton _ _
    · rw [List.pairwise_cons, List.pairwise_flatMap]
      refine ⟨fun found hfound => ?_, fun name _ => ?_, ?_⟩
      · obtain ⟨name, -, h⟩ := List.mem_flatMap.mp hfound
        obtain ⟨found, -, rfl⟩ := List.mem_map.mp h
        exact List.nil_lt_cons _ _
      · refine List.pairwise_map.mpr ((ih (loc ++ [name])).imp fun h => ?_)
        exact namesBefore_cons.mpr (.inr ⟨rfl, h⟩)
      · -- what lies in different children differs in the first name
        refine (enumerates_children ht loc).ascending.imp fun hname found hfound other hother => ?_
        obtain ⟨found, -, rfl⟩ := List.mem_map.mp hfound
        obtain ⟨other, -, rfl⟩ := List.mem_map.mp hother
        exact namesBefore_cons.mpr (.inl hname)

/-- **A walk finds exactly what stands below**, each item once and in the order of names. -/
theorem enumerates_descend (ht : t.Distinct) (loc : Location) :
    Enumerates (fun a b => NamesBefore a.1 b.1) (t.descend t.depthBound loc)
      fun found => t.Below loc found.1 found.2 where
  ascending := pairwise_descend ht t.depthBound loc
  mem_iff _ := ⟨below_of_mem_descend, fun h => h.mem_descend (Nat.le_add_left _ _)⟩

end BuildPlan.FileTree
