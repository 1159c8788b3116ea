import BuildPlan.Files.Tree
import BuildPlan.Proofs.Path
import Mathlib.Data.List.Basic

/-!
# Where paths lead in a file tree

A path leads from component to component (`reached_eq_follow`), so two paths with the same
components lead to the same place, and two trees in which a path leads anywhere at all agree on
where (`reached_unique`). What can be seen there decides what reading and listing give: trees that
look alike at a path are read alike (`read_alike`, `fileNames_alike`, `walkFrom_alike`).
-/

namespace BuildPlan.FileTree

open BuildPlan.Path (components IsName)

/-! ## Following components -/

/-- One step along a component. -/
def along (t : FileTree) (loc : Location) : Component → Except FileError Location
  | .root => .ok []
  | .current => .ok loc
  | .parent => t.stepTo loc ['.', '.']
  | .name s => t.stepTo loc s.toList

/-- Where components lead. -/
def follow (t : FileTree) (loc : Location) : List Component → Except FileError Location
  | [] => .ok loc
  | c :: cs =>
    match t.along loc c with
    | .error e => .error e
    | .ok loc => t.follow loc cs

/-- Where a path leads, whatever its length. -/
def reached (t : FileTree) (path : String) : Except FileError Location :=
  t.stepsTo (t.start path) (Text.split '/' path.toList)

theorem along_componentOf (t : FileTree) (loc : Location) (part : List Char) :
    t.along loc (Path.componentOf part) = t.stepTo loc part := by
  rw [Path.componentOf]
  split
  · rename_i hup
    rw [along, hup]
  · rw [along, String.toList_ofList]

theorem stepsTo_eq_follow (t : FileTree) (loc : Location) (parts : List (List Char)) :
    t.stepsTo loc parts = t.follow loc (Path.stepsOf parts) := by
  induction parts generalizing loc with
  | nil => rfl
  | cons part rest ih =>
    rw [stepsTo]
    cases hidle : Path.isIdle part with
    | true => rw [if_pos rfl, Path.stepsOf_cons_idle hidle, ih]
    | false =>
      rw [if_neg Bool.false_ne_true, Path.stepsOf_cons_of_not_idle hidle, follow,
        along_componentOf]
      cases t.stepTo loc part with
      | error e => rfl
      | ok loc => exact ih loc

theorem reached_eq_follow (t : FileTree) (path : String) :
    t.reached path = t.follow t.cwd (components path) := by
  rw [reached, stepsTo_eq_follow, Path.components_eq, ← Path.steps, Path.lead, start]
  split_ifs <;> rfl

theorem reached_congr {t : FileTree} {path path' : String} (h : components path = components path') :
    t.reached path = t.reached path' := by
  rw [reached_eq_follow, reached_eq_follow, h]

theorem follow_concat {t : FileTree} {loc loc' : Location} {cs : List Component} (c : Component)
    (h : t.follow loc cs = .ok loc') : t.follow loc (cs ++ [c]) = t.along loc' c := by
  induction cs generalizing loc with
  | nil =>
    obtain rfl := Except.ok.inj h
    rw [List.nil_append, follow]
    cases t.along loc c <;> rfl
  | cons d cs ih =>
    rw [follow] at h
    rw [List.cons_append, follow]
    cases hd : t.along loc d with
    | error e =>
      rw [hd] at h
      cases h
    | ok next =>
      rw [hd] at h
      exact ih h

/-- Where a component leads without looking at a tree. -/
def landing (loc : Location) : Component → Location
  | .root => []
  | .current => loc
  | .parent => loc.dropLast
  | .name s => loc ++ [s]

theorem stepTo_ok {t : FileTree} {loc loc' : Location} {part : List Char}
    (h : t.stepTo loc part = .ok loc') :
    loc' = if part = ['.', '.'] then loc.dropLast else loc ++ [String.ofList part] := by
  unfold stepTo at h
  split_ifs at h with hdir hup
  · rw [if_pos hup]
    exact (Except.ok.inj h).symm
  · rw [if_neg hup]
    simp only at h
    split_ifs at h
    exact (Except.ok.inj h).symm

theorem along_ok {t : FileTree} {loc loc' : Location} {c : Component}
    (hc : ∀ s, c = .name s → IsName s) (h : t.along loc c = .ok loc') : loc' = landing loc c := by
  cases c with
  | root => exact (Except.ok.inj h).symm
  | current => exact (Except.ok.inj h).symm
  | parent =>
    have hloc := stepTo_ok h
    rwa [if_pos rfl] at hloc
  | name s =>
    have hloc := stepTo_ok h
    rwa [if_neg (hc s rfl).2.1, String.ofList_toList] at hloc

theorem follow_ok {t : FileTree} {loc loc' : Location} {cs : List Component}
    (hcs : ∀ c ∈ cs, ∀ s, c = .name s → IsName s) (h : t.follow loc cs = .ok loc') :
    loc' = cs.foldl landing loc := by
  induction cs generalizing loc with
  | nil => exact (Except.ok.inj h).symm
  | cons c cs ih =>
    rw [follow] at h
    cases hc : t.along loc c with
    | error e =>
      rw [hc] at h
      cases h
    | ok next =>
      rw [hc] at h
      rw [List.foldl_cons, ← along_ok (hcs c List.mem_cons_self) hc]
      exact ih (fun d hd => hcs d (List.mem_cons_of_mem c hd)) h

theorem isName_of_mem_components {path : String} {c : Component} (hc : c ∈ components path) :
    ∀ s, c = .name s → IsName s := by
  rintro s rfl
  rw [Path.components_eq, List.mem_append] at hc
  rcases hc with hc | hc
  · rw [Path.lead] at hc
    split_ifs at hc <;> simp at hc
  · exact Path.isStep_of_mem_steps hc

/-- **A path leads to one place only**, in whatever tree it leads anywhere. -/
theorem reached_unique {t₁ t₂ : FileTree} (hcwd : t₁.cwd = t₂.cwd) {path : String}
    {loc₁ loc₂ : Location} (h₁ : t₁.reached path = .ok loc₁) (h₂ : t₂.reached path = .ok loc₂) :
    loc₁ = loc₂ := by
  rw [reached_eq_follow] at h₁ h₂
  rw [follow_ok (fun c => isName_of_mem_components) h₁,
    follow_ok (fun c => isName_of_mem_components) h₂, hcwd]

/-! ## What can be seen at a path -/

/-- What can be seen at a path. -/
inductive Sight where
  | nothing
  | file (data : Bytes)
  /-- The names in a directory, each with whether a directory stands there. -/
  | directory (entries : List (String × Bool))
  deriving DecidableEq, Repr

/-- The names in the directory at a location, each with whether a directory stands there. -/
def entries (t : FileTree) (loc : Location) : List (String × Bool) :=
  (t.children loc).map fun name => (name, t.hasDirectory (loc ++ [name]))

theorem map_fst_entries (t : FileTree) (loc : Location) :
    (t.entries loc).map (·.1) = t.children loc := by
  simp [entries, Function.comp_def]

def sightAt (t : FileTree) (loc : Location) : Sight :=
  match t.at? loc with
  | none => .nothing
  | some (.file data _) => .file data
  | some .directory => .directory (t.entries loc)

/-- What can be seen at a path. -/
def sight (t : FileTree) (path : String) : Sight :=
  match t.reached path with
  | .error _ => .nothing
  | .ok loc => t.sightAt loc

theorem sight_congr {t : FileTree} {path path' : String} (h : components path = components path') :
    t.sight path = t.sight path' := by
  rw [sight, sight, reached_congr h]

theorem sight_of_reached {t : FileTree} {path : String} {loc : Location}
    (h : t.reached path = .ok loc) : t.sight path = t.sightAt loc := by
  rw [sight, h]

theorem sightAt_eq_file {t : FileTree} {loc : Location} {data : Bytes} :
    t.sightAt loc = .file data ↔ ∃ executable, t.at? loc = some (.file data executable) := by
  rw [sightAt]
  cases t.at? loc with
  | none => simp
  | some item => cases item <;> simp

theorem sightAt_eq_directory {t : FileTree} {loc : Location} {es : List (String × Bool)} :
    t.sightAt loc = .directory es ↔ t.at? loc = some .directory ∧ t.entries loc = es := by
  rw [sightAt]
  cases t.at? loc with
  | none => simp
  | some item => cases item <;> simp

theorem lookup_eq_ok_iff {t : FileTree} {path : String} {loc : Location} {item : Item} :
    t.lookup path = .ok (loc, item) ↔ checkPath path = .ok () ∧ t.reached path = .ok loc ∧
      t.at? loc = some item ∧ (item = .directory ∨ asksForDirectory path = false) := by
  rw [lookup, ← reached]
  cases checkPath path with
  | error e => simp
  | ok u =>
    cases t.reached path with
    | error e => simp
    | ok found =>
      simp only [true_and, Except.ok.injEq]
      constructor
      · intro h
        split at h
        · cases h
        · rename_i hat
          cases h
          exact ⟨rfl, hat, .inl rfl⟩
        · rename_i hat
          split_ifs at h with hask
          cases h
          exact ⟨rfl, hat, .inr (by simpa using hask)⟩
      · rintro ⟨rfl, hat, hask⟩
        rw [hat]
        cases item with
        | directory => rfl
        | file data executable =>
          have hask : asksForDirectory path = false := hask.resolve_left (by simp)
          simp [hask]

/-! ## Trees that look alike at a path -/

section Alike

variable {t₁ t₂ : FileTree} {path : String}

theorem reached_alike (hcwd : t₁.cwd = t₂.cwd) (h : t₁.sight path = t₂.sight path)
    {loc : Location} (hloc : t₁.reached path = .ok loc) (hat : (t₁.at? loc).isSome) :
    t₂.reached path = .ok loc ∧ t₁.sightAt loc = t₂.sightAt loc := by
  rw [sight_of_reached hloc] at h
  cases hloc₂ : t₂.reached path with
  | error e =>
    rw [sight, hloc₂, sightAt] at h
    obtain ⟨item, hitem⟩ := Option.isSome_iff_exists.mp hat
    rw [hitem] at h
    cases item <;> cases h
  | ok loc₂ =>
    obtain rfl := reached_unique hcwd hloc hloc₂
    rw [sight_of_reached hloc₂] at h
    exact ⟨rfl, h⟩

theorem read_alike (hcwd : t₁.cwd = t₂.cwd) (h : t₁.sight path = t₂.sight path) {data : Bytes}
    (hread : t₁.read path = .ok data) : t₂.read path = .ok data := by
  rw [read] at hread
  split at hread
  · cases hread
  · cases hread
  · rename_i loc contents executable hlookup
    obtain rfl := Except.ok.inj hread
    obtain ⟨hcheck, hloc, hat, hask⟩ := lookup_eq_ok_iff.mp hlookup
    obtain ⟨hloc₂, hsight⟩ := reached_alike hcwd h hloc (by simp [hat])
    rw [sightAt_eq_file.mpr ⟨executable, hat⟩] at hsight
    obtain ⟨executable₂, hat₂⟩ := sightAt_eq_file.mp hsight.symm
    have hask : asksForDirectory path = false := hask.resolve_left (by simp)
    rw [read, lookup_eq_ok_iff.mpr ⟨hcheck, hloc₂, hat₂, .inr hask⟩]

theorem readText_alike (hcwd : t₁.cwd = t₂.cwd) (h : t₁.sight path = t₂.sight path)
    {text : String} (hread : t₁.readText path = .ok text) : t₂.readText path = .ok text := by
  rw [readText] at hread ⊢
  cases hdata : t₁.read path with
  | error e =>
    rw [hdata] at hread
    cases hread
  | ok data =>
    rw [hdata] at hread
    rw [read_alike hcwd h hdata]
    exact hread

theorem lookup_directory_alike (hcwd : t₁.cwd = t₂.cwd) (h : t₁.sight path = t₂.sight path)
    {loc : Location} (hlookup : t₁.lookup path = .ok (loc, .directory)) :
    t₂.lookup path = .ok (loc, .directory) ∧ t₁.entries loc = t₂.entries loc := by
  obtain ⟨hcheck, hloc, hat, hask⟩ := lookup_eq_ok_iff.mp hlookup
  obtain ⟨hloc₂, hsight⟩ := reached_alike hcwd h hloc (by simp [hat])
  rw [sightAt_eq_directory.mpr ⟨hat, rfl⟩] at hsight
  obtain ⟨hat₂, hentries⟩ := sightAt_eq_directory.mp hsight.symm
  exact ⟨lookup_eq_ok_iff.mpr ⟨hcheck, hloc₂, hat₂, hask⟩, hentries.symm⟩

theorem isDirectory_eq_true_iff {t : FileTree} :
    t.isDirectory path = true ↔ ∃ loc, t.lookup path = .ok (loc, .directory) := by
  rw [isDirectory]
  split
  · rename_i loc hlookup
    simp [hlookup]
  · rename_i hnot
    simpa using hnot

theorem isDirectory_alike (hcwd : t₁.cwd = t₂.cwd) (h : t₁.sight path = t₂.sight path)
    (hdir : t₁.isDirectory path = true) : t₂.isDirectory path = true := by
  obtain ⟨loc, hlookup⟩ := isDirectory_eq_true_iff.mp hdir
  exact isDirectory_eq_true_iff.mpr ⟨loc, (lookup_directory_alike hcwd h hlookup).1⟩

end Alike

/-! ## Directories -/

theorem childName?_eq_some_iff {loc other : Location} {name : String} :
    childName? loc other = some name ↔ other = loc ++ [name] := by
  rw [childName?]
  split
  · rename_i last hlast
    obtain ⟨front, rfl⟩ := List.getLast?_eq_some_iff.mp hlast
    rw [List.dropLast_concat]
    constructor
    · intro h
      split_ifs at h with hfront
      rw [hfront, Option.some.inj h]
    · intro h
      obtain ⟨rfl, hname⟩ := List.append_inj' h rfl
      rw [if_pos rfl, (List.cons.inj hname).1]
  · rename_i hnone
    rw [List.getLast?_eq_none_iff] at hnone
    simp [hnone]

theorem mem_children_iff {t : FileTree} {loc : Location} {name : String} :
    name ∈ t.children loc ↔ ∃ item ∈ t.items, item.1 = loc ++ [name] := by
  rw [children, sortNames, List.mem_mergeSort, List.mem_filterMap]
  simp only [childName?_eq_some_iff]

theorem at?_of_mem_children {t : FileTree} {loc : Location} {name : String}
    (h : name ∈ t.children loc) : (t.at? (loc ++ [name])).isSome := by
  obtain ⟨item, hmem, hloc⟩ := mem_children_iff.mp h
  obtain ⟨first, rest, hcons⟩ := List.exists_cons_of_ne_nil (List.concat_ne_nil name loc)
  rw [hcons] at hloc ⊢
  rw [at?, Option.isSome_map, List.find?_isSome]
  exact ⟨item, hmem, by simp [hloc]⟩

theorem fileNames_of_lookup {t : FileTree} {path : String} {loc : Location}
    (h : t.lookup path = .ok (loc, .directory)) :
    t.fileNames path = .ok (((t.entries loc).filter (!·.2)).map (·.1)) := by
  rw [fileNames, h]
  simp only [entries, List.filter_map, List.map_map, Except.ok.injEq, Function.comp_def, List.map_id']
  refine List.filter_congr fun name hname => ?_
  obtain ⟨item, hitem⟩ := Option.isSome_iff_exists.mp (at?_of_mem_children hname)
  rw [hasDirectory, hitem]
  cases item <;> rfl

theorem fileNames_alike {t₁ t₂ : FileTree} {path : String} (hcwd : t₁.cwd = t₂.cwd)
    (h : t₁.sight path = t₂.sight path) {names : List String}
    (hnames : t₁.fileNames path = .ok names) : t₂.fileNames path = .ok names := by
  cases hlookup : t₁.lookup path with
  | error e =>
    rw [fileNames, hlookup] at hnames
    cases hnames
  | ok found =>
    obtain ⟨loc, item⟩ := found
    cases item with
    | directory =>
      obtain ⟨hlookup₂, hentries⟩ := lookup_directory_alike hcwd h hlookup
      rw [fileNames_of_lookup hlookup, hentries] at hnames
      rw [fileNames_of_lookup hlookup₂, hnames]
    | file data executable =>
      obtain ⟨hcheck, hloc, hat, hask⟩ := lookup_eq_ok_iff.mp hlookup
      obtain ⟨hloc₂, hsight⟩ := reached_alike hcwd h hloc (by simp [hat])
      rw [sightAt_eq_file.mpr ⟨executable, hat⟩] at hsight
      obtain ⟨executable₂, hat₂⟩ := sightAt_eq_file.mp hsight.symm
      have hask : asksForDirectory path = false := hask.resolve_left (by simp)
      rw [fileNames, hlookup] at hnames
      rw [fileNames, lookup_eq_ok_iff.mpr ⟨hcheck, hloc₂, hat₂, .inr hask⟩]
      exact hnames

/-- Every name in the tree can be the name of something in a directory. -/
def WellNamed (t : FileTree) : Prop :=
  ∀ item ∈ t.items, ∀ name ∈ item.1, IsName name ∧ Text.utf8Length name ≤ nameLimit

instance (t : FileTree) : Decidable t.WellNamed :=
  inferInstanceAs (Decidable (∀ item ∈ t.items, ∀ name ∈ item.1, _ ∧ _))

theorem WellNamed.child {t : FileTree} (ht : t.WellNamed) {loc : Location} {name : String}
    (h : name ∈ t.children loc) : IsName name ∧ Text.utf8Length name ≤ nameLimit := by
  obtain ⟨item, hmem, hloc⟩ := mem_children_iff.mp h
  exact ht item hmem name (hloc ▸ List.mem_append_right loc List.mem_cons_self)

theorem reached_child {t : FileTree} (ht : t.WellNamed) {path : String} {loc : Location}
    (hloc : t.reached path = .ok loc) (hdir : t.at? loc = some .directory) {name : String}
    (hname : name ∈ t.children loc) : t.reached (Path.join path name) = .ok (loc ++ [name]) := by
  obtain ⟨hproper, hshort⟩ := ht.child hname
  rw [reached_eq_follow] at hloc ⊢
  have hhas : t.hasDirectory loc = true := by rw [hasDirectory, hdir, beq_self_eq_true]
  rw [Path.components_join_name hproper, follow_concat _ hloc, along, stepTo, hhas,
    if_neg (by simp), if_neg hproper.2.1, String.ofList_toList]
  simp only [if_neg (Nat.not_lt.mpr hshort), at?_of_mem_children hname, if_true]

/-! ## Walks -/

theorem length_lt_depthBound {t : FileTree} {item : Location × Item} (h : item ∈ t.items) :
    item.1.length < t.depthBound := by
  have hmax : ∀ (lengths : List Nat), ∀ n ∈ lengths, n ≤ lengths.foldr max 0 := by
    intro lengths
    induction lengths with
    | nil => simp
    | cons m lengths ih =>
      intro n hn
      rw [List.foldr_cons]
      rcases List.mem_cons.mp hn with rfl | hn
      · exact Nat.le_max_left _ _
      · exact Nat.le_trans (ih n hn) (Nat.le_max_right _ _)
  exact Nat.lt_succ_of_le (hmax _ _ (List.mem_map_of_mem h))

theorem at?_eq_none_of_deep {t : FileTree} {loc : Location} (h : t.depthBound ≤ loc.length) :
    t.at? loc = none := by
  cases loc with
  | nil => exact absurd h (Nat.not_succ_le_zero _)
  | cons first rest =>
    rw [at?, Option.map_eq_none_iff, List.find?_eq_none]
    intro item hitem hloc
    have hlength := length_lt_depthBound hitem
    rw [beq_iff_eq.mp hloc] at hlength
    omega

/-- A walk that may go deeper than every location finds no more. -/
theorem walkFrom_add {t : FileTree} (extra : Nat) {depth : Nat} {path : String} {loc : Location}
    (h : t.depthBound ≤ loc.length + depth) :
    t.walkFrom (depth + extra) path loc = t.walkFrom depth path loc := by
  induction depth generalizing path loc with
  | zero =>
    cases extra with
    | zero => rfl
    | succ extra =>
      rw [Nat.zero_add, show t.walkFrom 0 path loc = [] from rfl, walkFrom, at?_eq_none_of_deep h]
  | succ depth ih =>
    rw [Nat.succ_add, walkFrom, walkFrom]
    have hchildren (name : String) :
        t.walkFrom (depth + extra) (Path.join path name) (loc ++ [name]) =
          t.walkFrom depth (Path.join path name) (loc ++ [name]) := by
      refine ih ?_
      rw [List.length_append, List.length_singleton]
      omega
    simp only [hchildren]

/-- An item of a walk without the contents of files. -/
def kindOf (item : String × Item) : String × Bool :=
  (item.1, item.2 == .directory)

/-- **A walk depends on the directories it lists**: where these look alike in two trees, it finds the
same paths and the same kinds. -/
theorem walkFrom_alike {t₁ t₂ : FileTree} (hcwd : t₁.cwd = t₂.cwd) (ht : t₁.WellNamed)
    (depth : Nat) {path : String} {loc : Location} (hloc : t₁.reached path = .ok loc)
    (hkind : (t₁.at? loc).map (· == .directory) = (t₂.at? loc).map (· == .directory))
    (hdirs : ∀ p, (p, Item.directory) ∈ t₁.walkFrom depth path loc → t₁.sight p = t₂.sight p) :
    (t₁.walkFrom depth path loc).map kindOf = (t₂.walkFrom depth path loc).map kindOf := by
  induction depth generalizing path loc with
  | zero => rfl
  | succ depth ih =>
    rw [walkFrom, walkFrom]
    cases hat : t₁.at? loc with
    | none =>
      rw [hat] at hkind
      rw [Option.map_eq_none_iff.mp hkind.symm]
    | some item =>
      rw [hat] at hkind
      obtain ⟨item₂, hat₂, hkind⟩ := Option.map_eq_some_iff.mp hkind.symm
      rw [hat₂]
      cases item with
      | file data executable =>
        cases item₂ with
        | directory => cases hkind
        | file data₂ executable₂ => rfl
      | directory =>
        cases item₂ with
        | file data₂ executable₂ => cases hkind
        | directory =>
          have hsight := hdirs path (by rw [walkFrom, hat]; exact List.mem_cons_self)
          obtain ⟨-, hsightAt⟩ := reached_alike hcwd hsight hloc (by simp [hat])
          rw [sightAt_eq_directory.mpr ⟨hat, rfl⟩] at hsightAt
          have hentries := (sightAt_eq_directory.mp hsightAt.symm).2
          have hchildren : t₁.children loc = t₂.children loc := by
            rw [← map_fst_entries, ← hentries, map_fst_entries]
          rw [entries, entries, ← hchildren, List.map_inj_left] at hentries
          simp only [List.map_cons, List.map_flatMap, ← hchildren]
          refine congrArg _ (List.flatMap_congr fun name hname => ?_)
          refine ih (reached_child ht hloc hat hname) ?_ fun p hp => hdirs p ?_
          · obtain ⟨child, hchild⟩ := Option.isSome_iff_exists.mp (at?_of_mem_children hname)
            obtain ⟨child₂, hchild₂⟩ := Option.isSome_iff_exists.mp
              (at?_of_mem_children (hchildren ▸ hname))
            have hsame := (Prod.mk.inj (hentries name hname)).2
            rw [hasDirectory, hasDirectory, hchild, hchild₂] at hsame
            rw [hchild, hchild₂, Option.map_some, Option.map_some]
            exact congrArg some hsame.symm
          · rw [walkFrom, hat]
            exact List.mem_cons_of_mem _ (List.mem_flatMap.mpr ⟨name, hname, hp⟩)

theorem walk_eq_ok_iff {t : FileTree} {path : String} {items : List (String × Item)} :
    t.walk path = .ok items ↔
      ∃ loc item, t.lookup path = .ok (loc, item) ∧ t.walkFrom t.depthBound path loc = items := by
  rw [walk]
  cases t.lookup path with
  | error e => simp
  | ok found =>
    obtain ⟨loc, item⟩ := found
    simp

theorem isDirectory_of_lookup {t : FileTree} {path : String} {loc : Location} {item : Item}
    (h : t.lookup path = .ok (loc, item)) : t.isDirectory path = (item == .directory) := by
  rw [isDirectory, h]
  cases item <;> rfl

theorem mem_walkFrom_self {t : FileTree} {path : String} {loc : Location} {item : Item}
    (h : t.at? loc = some item) : (path, item) ∈ t.walkFrom t.depthBound path loc := by
  rw [depthBound, walkFrom, h]
  cases item <;> exact List.mem_cons_self

/-- **Walks look alike** where the directories that one of them lists look alike; from a file the
other one must not start at a directory. -/
theorem walk_alike {t₁ t₂ : FileTree} {path : String} {items₁ items₂ : List (String × Item)}
    (h₁ : t₁.walk path = .ok items₁) (h₂ : t₂.walk path = .ok items₂) (hcwd : t₁.cwd = t₂.cwd)
    (ht : t₁.WellNamed)
    (hdirs : ∀ p, (p, Item.directory) ∈ items₁ → t₁.sight p = t₂.sight p)
    (hnot : t₁.isDirectory path = false → t₂.isDirectory path = false) :
    items₁.map kindOf = items₂.map kindOf := by
  obtain ⟨loc, item₁, hlookup₁, rfl⟩ := walk_eq_ok_iff.mp h₁
  obtain ⟨loc₂, item₂, hlookup₂, rfl⟩ := walk_eq_ok_iff.mp h₂
  obtain ⟨-, hloc₁, hat₁, -⟩ := lookup_eq_ok_iff.mp hlookup₁
  obtain ⟨-, hloc₂, hat₂, -⟩ := lookup_eq_ok_iff.mp hlookup₂
  obtain rfl := reached_unique hcwd hloc₁ hloc₂
  have hkind : (item₁ == .directory) = (item₂ == .directory) := by
    rw [← isDirectory_of_lookup hlookup₁, ← isDirectory_of_lookup hlookup₂]
    cases hdir : t₁.isDirectory path with
    | false => exact (hnot hdir).symm
    | true =>
      rw [isDirectory_of_lookup hlookup₁, beq_iff_eq] at hdir
      subst hdir
      have hsight := hdirs path (mem_walkFrom_self hat₁)
      rw [isDirectory_of_lookup (lookup_directory_alike hcwd hsight hlookup₁).1]
      rfl
  -- both walks are the ones that may go as deep as either tree
  rw [← walkFrom_add t₂.depthBound (Nat.le_add_left _ _)] at hdirs ⊢
  rw [← walkFrom_add t₁.depthBound (Nat.le_add_left t₂.depthBound _),
    Nat.add_comm t₂.depthBound]
  refine walkFrom_alike hcwd ht _ hloc₁ ?_ hdirs
  rw [hat₁, hat₂]
  exact congrArg some hkind

end BuildPlan.FileTree
