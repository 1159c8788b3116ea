import BuildPlan.Proofs.Placement
import BuildPlan.Proofs.Walk

/-!
# What is there in a tree

A path is read behind a directory where a variable holds the directory. What the generator looks up
joined to the root is there behind the root too, as long as no path is absolute: what it checks
because the project file names it (`holds_of_checkRequired`), and what it finds on its own, as
headers, tests and directories to be watched.
-/

namespace BuildPlan

open BuildPlan.Path (components steps IsName lastPart)

/-! ## Paths behind a directory -/

namespace Path

/-- A path as it reads behind a directory, as where a variable holds the directory. The empty
directory is the working directory. -/
def behind (dir path : String) : String :=
  (if dir = "" then "." else dir) ++ "/" ++ path

theorem toList_behind (dir path : String) :
    (behind dir path).toList = (if dir = "" then "." else dir).toList ++ '/' :: path.toList := by
  rw [behind, String.toList_append, String.toList_append, show "/".toList = ['/'] from rfl,
    List.append_assoc, List.singleton_append]

theorem lastPart_of_split {path rel : String} {front : List (List Char)}
    (h : Text.split '/' path.toList = front ++ Text.split '/' rel.toList) :
    lastPart path = lastPart rel := by
  rw [lastPart, lastPart, h, List.getLastD_eq_getLast?, List.getLastD_eq_getLast?,
    List.getLast?_append_of_ne_nil front (Text.split_ne_nil '/' _)]

theorem split_behind (dir path : String) :
    Text.split '/' (behind dir path).toList =
      Text.split '/' (if dir = "" then "." else dir).toList ++ Text.split '/' path.toList := by
  rw [toList_behind, Text.split_append_sep]

theorem lastPart_behind (dir path : String) : lastPart (behind dir path) = lastPart path :=
  lastPart_of_split (split_behind dir path)

theorem lastPart_join {base rel : String} (hrel : isAbsolute rel = false) :
    lastPart (join base rel) = lastPart rel := by
  by_cases hbase : base = ""
  · rw [hbase, join_empty]
  · obtain ⟨front, hsplit, -, -⟩ := split_join hbase hrel
    exact lastPart_of_split hsplit

theorem steps_join {base rel : String} (hrel : isAbsolute rel = false) :
    steps (join base rel) = steps base ++ steps rel := by
  by_cases hbase : base = ""
  · rw [hbase, join_empty]
    rfl
  · obtain ⟨front, hsplit, hsteps, -⟩ := split_join hbase hrel
    rw [steps, hsplit, stepsOf_append, hsteps]
    rfl

theorem components_behind (dir path : String) :
    components (behind dir path) = components (if dir = "" then "." else dir) ++ steps path := by
  have hsplit := split_behind dir path
  generalize hfront : (if dir = "" then "." else dir) = front at hsplit ⊢
  have hne : front.toList ≠ [] := by
    rw [← hfront]
    split_ifs with hdir
    · decide
    · simpa using hdir
  -- the first part decides where a path starts, and both paths have the same one
  obtain ⟨c, cs, hcs⟩ := List.exists_cons_of_ne_nil hne
  obtain ⟨part, parts, hparts⟩ := List.exists_cons_of_ne_nil (Text.split_ne_nil '/' front.toList)
  have htext : (behind dir path).toList = front.toList ++ '/' :: path.toList := by
    rw [toList_behind, hfront]
  have habs : isAbsolute (behind dir path) = isAbsolute front := by
    rw [isAbsolute, isAbsolute, htext, hcs]
    rfl
  have hlead : lead (behind dir path) = lead front := by
    rw [lead, lead, habs, hsplit, hparts]
    rfl
  rw [components_eq, components_eq, hlead, steps, hsplit, stepsOf_append, List.append_assoc]
  rfl

/-- A path cannot be told from one behind the working directory. -/
theorem lead_of_relative {path : String} (h : isAbsolute path = false) :
    lead path = [] ∨ lead path = [.current] := by
  rw [lead, h, if_neg Bool.false_ne_true]
  split_ifs
  · exact .inr rfl
  · exact .inl rfl

theorem isAbsolute_of_prefix {path deeper : String} (hne : path ≠ "")
    (h : components path <+: components deeper) : isAbsolute deeper = isAbsolute path := by
  obtain ⟨c, cs, hcs⟩ := List.exists_cons_of_ne_nil (components_ne_nil hne)
  obtain ⟨rest, hrest⟩ := h
  have hhead : (components deeper).head? = (components path).head? := by
    rw [← hrest, hcs]
    rfl
  rw [Bool.eq_iff_iff, isAbsolute_iff_head, isAbsolute_iff_head, hhead]

theorem notMem_text_of_mem_components {path : String} (h : isAbsolute path = false) {c : Component}
    (hc : c ∈ components path) : '/' ∉ c.text.toList := by
  rw [components_eq, List.mem_append] at hc
  rcases hc with hc | hc
  · rcases lead_of_relative h with hlead | hlead
    · rw [hlead] at hc
      cases hc
    · rw [hlead] at hc
      obtain rfl := List.mem_singleton.mp hc
      decide
  · exact (isStep_of_mem_steps hc).part.2.1

theorem lastPart_joinComponents {cs : List Component} (hcs : ∀ c ∈ cs, '/' ∉ c.text.toList)
    {c : Component} (hlast : cs.getLast? = some c) :
    lastPart (joinComponents cs) = c.text.toList := by
  have hne : cs.map (·.text.toList) ≠ [] := by
    rintro hnil
    rw [List.map_eq_nil_iff.mp hnil] at hlast
    cases hlast
  have hslash : ∀ part ∈ cs.map (·.text.toList), '/' ∉ part := by
    intro part hpart
    obtain ⟨d, hd, rfl⟩ := List.mem_map.mp hpart
    exact hcs d hd
  rw [joinComponents_eq, lastPart, Text.split_joinWith hne hslash, List.getLastD_eq_getLast?,
    List.getLast?_map, hlast]
  rfl

end Path

namespace FileTree

variable {t : FileTree} {root path : String}

/-! ## Something stands at a path -/

/-- Something stands at a path, however long the path may be; where the path can only mean a
directory, it is one. -/
def Holds (t : FileTree) (path : String) : Prop :=
  ∃ loc item, t.reached path = .ok loc ∧ t.at? loc = some item ∧
    (item = .directory ∨ asksForDirectory path = false)

theorem pathExists_iff : t.pathExists path = true ↔ checkPath path = .ok () ∧ t.Holds path := by
  have hlookup : t.pathExists path = true ↔ ∃ loc item, t.lookup path = .ok (loc, item) := by
    rw [pathExists]
    cases t.lookup path with
    | error e => simp
    | ok found =>
      obtain ⟨loc, item⟩ := found
      simp
  simp only [hlookup, lookup_eq_ok_iff, Holds, exists_and_left]

theorem asksForDirectory_eq (path : String) :
    asksForDirectory path = Path.isIdle (lastPart path) := by
  have hlast := List.getLast?_eq_some_getLast (Text.split_ne_nil '/' path.toList)
  rw [asksForDirectory, lastPart, List.getLastD_eq_getLast?, hlast]
  rfl

theorem Holds.congr {path' : String} (h : t.Holds path)
    (hreached : t.reached path' = t.reached path) (hlast : lastPart path' = lastPart path) :
    t.Holds path' := by
  obtain ⟨loc, item, hloc, hat, hask⟩ := h
  refine ⟨loc, item, hreached.trans hloc, hat, ?_⟩
  rwa [asksForDirectory_eq, hlast, ← asksForDirectory_eq]

/-! ## Where a path behind a directory leads -/

theorem follow_append (loc : Location) (cs ds : List Component) :
    t.follow loc (cs ++ ds) = t.follow loc cs >>= fun next => t.follow next ds := by
  induction cs generalizing loc with
  | nil => rfl
  | cons c cs ih =>
    rw [List.cons_append, follow, follow]
    cases t.along loc c with
    | error e => rfl
    | ok next => exact ih next

theorem reached_behind (t : FileTree) (dir path : String) :
    t.reached (Path.behind dir path) = t.reached dir >>= fun loc => t.follow loc (steps path) := by
  rw [reached_eq_follow, reached_eq_follow, Path.components_behind, follow_append]
  split_ifs with hdir
  · rw [hdir]
    rfl
  · rfl

theorem reached_join (t : FileTree) (dir : String) {rel : String}
    (hrel : Path.isAbsolute rel = false) :
    t.reached (Path.join dir rel) = t.reached dir >>= fun loc => t.follow loc (steps rel) := by
  rw [reached_eq_follow, reached_eq_follow]
  by_cases hdir : dir = ""
  · rw [hdir, Path.join_empty, Path.components_eq]
    rcases Path.lead_of_relative hrel with hlead | hlead
    · rw [hlead]
      rfl
    · rw [hlead]
      rfl
  · rw [Path.components_join hdir hrel, follow_append]

theorem Holds.behind (h : t.Holds (Path.join root path)) (hrel : Path.isAbsolute path = false) :
    t.Holds (Path.behind root path) := by
  refine h.congr ?_ ?_
  · rw [reached_behind, reached_join t root hrel]
  · rw [Path.lastPart_behind, Path.lastPart_join hrel]

theorem Holds.behind_behind {src : String} (h : t.Holds (Path.join root (Path.join src path)))
    (hsrc : Path.isAbsolute src = false) (hrel : Path.isAbsolute path = false) :
    t.Holds (Path.behind (Path.behind root src) path) := by
  have hjoin : Path.isAbsolute (Path.join src path) = false := by
    by_cases hempty : src = ""
    · rwa [hempty, Path.join_empty]
    · rwa [Path.isAbsolute_join hempty hrel]
  refine h.congr ?_ ?_
  · rw [reached_behind, reached_behind, reached_join t root hjoin, Path.steps_join hrel, bind_assoc]
    simp only [follow_append]
  · rw [Path.lastPart_behind, Path.lastPart_join hjoin, Path.lastPart_join hrel]

/-! ## What is found in a tree -/

theorem reached_of_mem_walkFrom (ht : t.WellNamed) {depth : Nat} {loc : Location}
    (hloc : t.reached path = .ok loc) {found : String × Item}
    (h : found ∈ t.walkFrom depth path loc) :
    ∃ loc', t.reached found.1 = .ok loc' ∧ t.at? loc' = some found.2 := by
  obtain ⟨names, hbelow, hpath⟩ := exists_below_of_mem_walkFrom h
  exact ⟨loc ++ names, hpath ▸ hbelow.reached_pathAlong ht hloc, hbelow.at?⟩

theorem exists_lookup_of_mem_fileNames {names : List String} (h : t.fileNames path = .ok names)
    {name : String} (hname : name ∈ names) :
    ∃ loc, t.lookup path = .ok (loc, .directory) ∧ name ∈ t.children loc := by
  rw [fileNames] at h
  split at h
  · cases h
  · obtain rfl := Except.ok.inj h
    cases hname
  · rename_i loc hlookup
    obtain rfl := Except.ok.inj h
    exact ⟨loc, hlookup, (List.mem_filter.mp hname).1⟩

/-- A file that a directory lists is there behind the directory, also where its path alone would not
lead to it because the directory is the root's own and has the empty path. -/
theorem holds_of_mem_fileNames (ht : t.WellNamed) {dir : String}
    (hrel : Path.isAbsolute dir = false) {names : List String}
    (hnames : t.fileNames (Path.join root dir) = .ok names) {name : String} (hname : name ∈ names) :
    t.Holds (Path.behind root (dir ++ "/" ++ name)) := by
  have hproper := isName_of_mem_fileNames ht hnames hname
  obtain ⟨loc, hlookup, hchild⟩ := exists_lookup_of_mem_fileNames hnames hname
  obtain ⟨-, hloc, hat, -⟩ := lookup_eq_ok_iff.mp hlookup
  have hreached := reached_child ht hloc hat hchild
  have hsteps : steps (dir ++ "/" ++ name) = steps dir ++ steps name := by
    rw [steps, String.toList_append, String.toList_append, show "/".toList = ['/'] from rfl,
      List.append_assoc, List.singleton_append, Text.split_append_sep, Path.stepsOf_append]
    rfl
  have hplace : t.reached (Path.behind root (dir ++ "/" ++ name)) = .ok (loc ++ [name]) := by
    rw [reached_join t _ hproper.isAbsolute, reached_join t root hrel, bind_assoc] at hreached
    rw [reached_behind, hsteps, ← hreached]
    simp only [follow_append]
  obtain ⟨item, hitem⟩ := Option.isSome_iff_exists.mp (at?_of_mem_children hchild)
  refine ⟨_, item, hplace, hitem, .inr ?_⟩
  rw [asksForDirectory_eq, Path.lastPart_behind, Path.lastPart_below dir hproper.2.2]
  exact hproper.1

/-! ## Paths taken relative to the root -/

theorem follow_steps (loc : Location) {path : String} (hrel : Path.isAbsolute path = false) :
    t.follow loc (components path) = t.follow loc (steps path) := by
  rw [Path.components_eq]
  rcases Path.lead_of_relative hrel with hlead | hlead
  · rw [hlead]
    rfl
  · rw [hlead]
    rfl

end FileTree

namespace Inputs

open FileTree (reached_behind reached_eq_follow follow_append)

variable {t : FileTree} {root dir : String} {items : List (String × Item)} {found : String × Item}

theorem exists_behind_root (ht : t.WellNamed) (hdir : Path.isAbsolute dir = false)
    (hwalk : t.walk (Path.join root dir) = .ok items) (hfound : found ∈ items) :
    ∃ s, relative root found.1 = Path.joinComponents (components s) ∧
      Path.isAbsolute s = false ∧ components found.1 = components root ++ components s := by
  obtain ⟨loc, item, hlookup, rfl⟩ := FileTree.walk_eq_ok_iff.mp hwalk
  have hdeeper := components_of_mem_walkFrom ht hfound
  have hstarts : components root <+: components found.1 := by
    by_cases hroot : root = ""
    · rw [hroot]
      exact List.nil_prefix
    · rw [Path.components_join hroot hdir] at hdeeper
      exact (List.prefix_append _ _).trans hdeeper
  obtain ⟨s, hs, hpath, hrest⟩ := Path.components_stripBase? hstarts
  refine ⟨s, by rw [relative, hs, Option.getD_some], ?_, hpath⟩
  by_cases hroot : root = ""
  · -- nothing is left out in front, so the path starts where `dir` does
    subst hroot
    rw [Path.join_empty] at hdeeper hlookup
    have hne : dir ≠ "" := by
      rintro rfl
      cases hlookup
    have habs := Path.isAbsolute_of_prefix hne hdeeper
    rw [hdir] at habs
    rw [Bool.eq_false_iff, Ne, Path.isAbsolute_iff_head] at habs ⊢
    rwa [hpath] at habs
  · exact (hrest hroot).1

theorem exists_of_isHeader (h : isHeader found = true) :
    found.2 ≠ .directory ∧ ∃ name, (components found.1).getLast? = some (.name name) := by
  obtain ⟨path, item⟩ := found
  cases item with
  | directory => cases h
  | file data executable =>
    have hextension : Path.extension? path = some "h" := by simpa [isHeader] using h
    refine ⟨nofun, ?_⟩
    rw [Path.extension?, Path.fileName?] at hextension
    cases hlast : (components path).getLast? with
    | none =>
      rw [hlast] at hextension
      cases hextension
    | some c =>
      rw [hlast] at hextension
      cases c with
      | name s => exact ⟨s, rfl⟩
      | _ => cases hextension

theorem holds_relative (ht : t.WellNamed)
    (hroot : ∀ loc, t.reached root = .ok loc → t.at? loc = some .directory)
    (hdir : Path.isAbsolute dir = false) (hwalk : t.walk (Path.join root dir) = .ok items)
    (hfound : found ∈ items) (hkind : isHeader found = true ∨ isDirectory found = true) :
    t.Holds (Path.behind root (relative root found.1)) := by
  obtain ⟨s, hrelative, hs, hpath⟩ := exists_behind_root ht hdir hwalk hfound
  obtain ⟨start, item, hlookup, rfl⟩ := FileTree.walk_eq_ok_iff.mp hwalk
  obtain ⟨-, hstart, -⟩ := FileTree.lookup_eq_ok_iff.mp hlookup
  obtain ⟨loc, hloc, hat⟩ := FileTree.reached_of_mem_walkFrom ht hstart hfound
  have hsame : components (relative root found.1) = components s := by
    rw [hrelative, Path.components_joinComponents]
  have hsteps : steps (relative root found.1) = steps s := by
    rw [Path.steps_eq_filter, hsame, ← Path.steps_eq_filter]
  have hplace : t.reached (Path.behind root (relative root found.1)) = .ok loc := by
    rw [reached_behind, hsteps, ← hloc, reached_eq_follow t found.1, hpath, follow_append,
      ← reached_eq_follow]
    simp only [FileTree.follow_steps _ hs]
  refine ⟨loc, found.2, hplace, hat, ?_⟩
  -- the path of a directory may end in any way, that of a header has to end in a name
  rcases hkind with hheader | hdirectory
  · right
    obtain ⟨hfile, name, hlast⟩ := exists_of_isHeader hheader
    have hne : components s ≠ [] := by
      intro hnil
      rw [hnil, List.append_nil] at hpath
      rw [FileTree.reached_congr hpath] at hloc
      rw [hroot loc hloc] at hat
      exact hfile (Option.some.inj hat).symm
    rw [hpath, List.getLast?_append_of_ne_nil _ hne] at hlast
    have hname : IsName name :=
      FileTree.isName_of_mem_components (List.mem_of_getLast? hlast) name rfl
    rw [FileTree.asksForDirectory_eq, Path.lastPart_behind, hrelative,
      Path.lastPart_joinComponents (fun c => Path.notMem_text_of_mem_components hs) hlast]
    exact hname.1
  · exact .inl (by simpa [isDirectory] using hdirectory)

/-! ## What is checked -/

variable {p : Project} {tools : ToolPaths} {paths : List String}

/-- **What is required**: whatever the project file names, but what a build makes. -/
theorem mem_required (h : required p tools = .ok paths) :
    (∀ path ∈ p.sources.map (·.path) ++
        [p.codegen.input, p.codegen.tool, p.codegen.script, p.library.header],
      Path.join p.general.src path ∈ paths) ∧
    (∀ path ∈ [p.library.license, p.includes.dir, p.tests.dir, p.tests.support], path ∈ paths) ∧
    ∀ item ∈ p.library.items, ∀ path, itemInput p.general.src item = .ok (some path) →
      path ∈ paths := by
  unfold required at h
  dsimp only at h
  split at h
  · cases h
  · rename_i found hfound
    obtain rfl := Except.ok.inj h
    refine ⟨fun path hpath => ?_, fun path hpath => ?_, fun item hitem path hpath => ?_⟩
    · exact List.mem_append_left _ (List.mem_append_left _ (List.mem_map_of_mem hpath))
    · simp only [List.mem_cons, List.not_mem_nil, or_false] at hpath
      rcases hpath with rfl | rfl | rfl | rfl <;> simp
    · obtain ⟨input, hinput, hsame⟩ := exists_mem_of_forall₂ (mapM_eq_ok_iff.mp hfound) hitem
      obtain rfl := Except.ok.inj (hpath.symm.trans hsame)
      simp [hinput]

theorem holds_of_checkRequired (h : checkRequired t root p tools = .ok ()) :
    ∃ paths, required p tools = .ok paths ∧ ∀ path ∈ paths, t.Holds (Path.join root path) := by
  unfold checkRequired at h
  split at h
  · cases h
  · rename_i paths hpaths
    refine ⟨paths, hpaths, fun path hpath => ?_⟩
    split at h
    · cases h
    · rename_i hnone
      have hthere := List.find?_eq_none.mp hnone _ (List.mem_map_of_mem hpath)
      exact (FileTree.pathExists_iff.mp (by simpa using hthere)).2

/-! ## What is collected -/

variable {platform : Platform}

theorem holds_of_mem_filesIn (ht : t.WellNamed) {dir path : String}
    (hdir : Path.isAbsolute dir = false) {fits : String → Bool} {paths : List String}
    (h : Project.Tests.filesIn t root dir fits = .ok paths) (hpath : path ∈ paths) :
    t.Holds (Path.behind root path) := by
  unfold Project.Tests.filesIn at h
  dsimp only at h
  split at h
  · cases h
  · rename_i names hnames
    obtain rfl := Except.ok.inj h
    obtain ⟨name, hname, rfl⟩ := List.mem_map.mp hpath
    exact FileTree.holds_of_mem_fileNames ht hdir hnames (List.mem_filter.mp hname).1

theorem holds_fixture (ht : t.WellNamed) (hdir : Path.isAbsolute p.tests.dir = false)
    {fixtures : List TestCase} (h : p.tests.enabledFixtures t root = .ok fixtures) {d : TestCase}
    (hd : d ∈ fixtures) : t.Holds (Path.behind root d.path) := by
  obtain ⟨_, _, hpaths, hpath, -⟩ := Project.Tests.exists_of_mem_enabledFixtures h hd
  exact holds_of_mem_filesIn ht hdir hpaths hpath

theorem holds_fuzzCase (ht : t.WellNamed)
    (hdir : ∀ dir ∈ p.tests.fuzz.toList, Path.isAbsolute dir = false) {cases : List TestCase}
    (h : fuzzCasesFor t root p platform = .ok cases) {c : TestCase} (hc : c ∈ cases) :
    t.Holds (Path.behind root c.path) := by
  obtain ⟨dir, paths, path, hfuzz, hpaths, hpath, rfl⟩ :=
    Project.Tests.exists_of_mem_fuzzInputs (fuzzInputs_of_mem_fuzzCasesFor h hc) hc
  exact holds_of_mem_filesIn ht (hdir dir (by simp [hfuzz])) hpaths hpath

theorem holds_script (ht : t.WellNamed) (hdir : Path.isAbsolute p.tests.dir = false)
    {cs : List Scenario.Compiled} (h : scenariosOf t root p = .ok cs) {c : Scenario.Compiled}
    (hc : c ∈ cs) : t.Holds (Path.behind root c.script) := by
  obtain ⟨_, _, hscripts, hscript⟩ := exists_of_mem_scenariosOf h hc
  exact holds_of_mem_filesIn ht hdir hscripts hscript

theorem mem_of_mem_addNew {dirs further : List String} {d : String} (h : d ∈ addNew dirs further) :
    d ∈ dirs ∨ d ∈ further := by
  induction further generalizing dirs with
  | nil => exact .inl h
  | cons e further ih =>
    rw [addNew] at h
    split_ifs at h
    · exact (ih h).imp_right (List.mem_cons_of_mem e)
    · rcases ih h with h | h
      · rcases List.mem_append.mp h with h | h
        · exact .inl h
        · obtain rfl := List.mem_singleton.mp h
          exact .inr List.mem_cons_self
      · exact .inr (List.mem_cons_of_mem e h)

theorem walkIncludes_eq_ok {dir : String} {found : List String × List String}
    (h : walkIncludes t root dir = .ok found) :
    ∃ items, t.walk (Path.join root dir) = .ok items ∧
      found.1 = (items.filter isHeader).map (relative root ·.1) ∧
      found.2 = (items.filter isDirectory).map (relative root ·.1) := by
  unfold walkIncludes at h
  dsimp only at h
  split at h
  · cases h
  · rename_i items hitems
    obtain rfl := Except.ok.inj h
    exact ⟨items, hitems, rfl, rfl⟩

theorem holds_include (ht : t.WellNamed)
    (hroot : ∀ loc, t.reached root = .ok loc → t.at? loc = some .directory) {dir : String}
    (hdir : Path.isAbsolute dir = false) {found : List String × List String}
    (h : walkIncludes t root dir = .ok found) {path : String}
    (hpath : path ∈ found.1 ∨ path ∈ found.2) : t.Holds (Path.behind root path) := by
  obtain ⟨items, hwalk, hheaders, hdirs⟩ := walkIncludes_eq_ok h
  rw [hheaders, hdirs] at hpath
  rcases hpath with hpath | hpath
  · obtain ⟨found, hfound, rfl⟩ := List.mem_map.mp hpath
    obtain ⟨hmem, hkind⟩ := List.mem_filter.mp hfound
    exact holds_relative ht hroot hdir hwalk hmem (.inl hkind)
  · obtain ⟨found, hfound, rfl⟩ := List.mem_map.mp hpath
    obtain ⟨hmem, hkind⟩ := List.mem_filter.mp hfound
    exact holds_relative ht hroot hdir hwalk hmem (.inr hkind)

theorem holds_watched {includeDirs : List String} {dir : String}
    (htests : t.Holds (Path.behind root p.tests.dir))
    (hfuzz : ∀ dir ∈ p.tests.fuzz.toList, Path.isAbsolute dir = false)
    (hincludes : ∀ dir ∈ includeDirs, t.Holds (Path.behind root dir))
    (h : dir ∈ watched t root p includeDirs) : t.Holds (Path.behind root dir) := by
  rcases mem_of_mem_addNew h with h | h
  · rcases List.mem_cons.mp h with rfl | h
    · exact htests
    · obtain ⟨hset, hthere⟩ := List.mem_filter.mp h
      obtain ⟨loc, hlookup⟩ := FileTree.isDirectory_eq_true_iff.mp hthere
      obtain ⟨-, hloc, hat, hask⟩ := FileTree.lookup_eq_ok_iff.mp hlookup
      exact FileTree.Holds.behind ⟨loc, _, hloc, hat, hask⟩ (hfuzz dir hset)
  · exact hincludes dir h

end Inputs

end BuildPlan
