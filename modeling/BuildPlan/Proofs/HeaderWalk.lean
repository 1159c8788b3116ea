import BuildPlan.Proofs.Presence
import BuildPlan.Proofs.Spelling

/-!
# The headers that are found

The headers of the compiler are the files below the include directory whose names end with `.h`, in
the order of their paths, component by component; next to them stand the directories of the walk,
the include directory first (`header_collection`). All paths are relative to the project, and what
they lead to from there is what the walk has found.
-/

namespace BuildPlan

/-! ## Paths from components -/

namespace Text

theorem splitLast_append {sep : Char} {after : List Char} (h : sep ∉ after) (before : List Char) :
    splitLast sep (before ++ sep :: after) = some (before, after) := by
  have hnone : splitLast sep after = none := by
    induction after with
    | nil => rfl
    | cons c cs ih =>
      obtain ⟨hc, hcs⟩ := not_or.mp fun hmem => h (List.mem_cons.mpr hmem)
      rw [splitLast, ih hcs, if_neg (Ne.symm hc)]
  induction before with
  | nil => rw [List.nil_append, splitLast, hnone, if_pos rfl]
  | cons c before ih => rw [List.cons_append, splitLast, ih]

end Text

namespace Path

/-- The order of paths by the bytes of their components, one component after the other. -/
def Before (path other : String) : Prop :=
  (components path).map (fun c => Text.toUtf8 c.text) <
    (components other).map (fun c => Text.toUtf8 c.text)

/-- A name that ends with `.h` behind something else. -/
def IsHeaderName (name : String) : Prop :=
  ∃ stem, stem ≠ "" ∧ name = stem ++ ".h"

theorem extension?_eq_h_iff {path name : String} (h : fileName? path = some name) :
    extension? path = some "h" ↔ IsHeaderName name := by
  rw [extension?, h]
  dsimp only
  constructor
  · intro hext
    split at hext
    · cases hext
    · cases hext
    · rename_i c before after hsplit
      have hafter : after = ['h'] := String.ofList_injective (Option.some.inj hext)
      refine ⟨String.ofList (c :: before), by simp, String.toList_inj.mp ?_⟩
      rw [Text.splitLast_eq_some hsplit, hafter, String.toList_append, String.toList_ofList]
      rfl
  · rintro ⟨stem, hstem, rfl⟩
    have hne : stem.toList ≠ [] := by simpa using hstem
    obtain ⟨c, cs, hcs⟩ := List.exists_cons_of_ne_nil hne
    have hsplit : Text.splitLast '.' (stem ++ ".h").toList = some (c :: cs, ['h']) := by
      rw [String.toList_append, hcs]
      exact Text.splitLast_append (by decide) (c :: cs)
    rw [hsplit]

theorem dropIdleEnd_of_not_idle {parts : List (List Char)} (h : ∀ p ∈ parts, isIdle p = false) :
    dropIdleEnd parts = parts := by
  have hsame : parts.reverse.dropWhile isIdle = parts.reverse := by
    cases hparts : parts.reverse with
    | nil => rfl
    | cons p rest =>
      have hp : p ∈ parts := List.mem_reverse.mp (hparts ▸ List.mem_cons_self)
      rw [List.dropWhile_cons_of_neg (by simp [h p hp])]
  rw [dropIdleEnd, hsame, List.reverse_reverse]

/-- The components that a relative path may start with. -/
def dots (dotted : Bool) : List Component :=
  if dotted then [.current] else []

theorem toText_relative (dotted : Bool) (cs : List Component) :
    Parts.toText ⟨false, dotted, cs.map (·.text.toList)⟩ = joinComponents (dots dotted ++ cs) := by
  have hbody : (cs.map (·.text.toList)).map String.ofList = cs.map Component.text := by
    simp [Function.comp_def]
  cases dotted with
  | false => simp only [Parts.toText, hbody, joinComponents]; rfl
  | true => simp only [Parts.toText, hbody, joinComponents]; rfl

theorem parts_joinComponents (dotted : Bool) {cs : List Component} (hne : cs ≠ [])
    (hcs : ∀ c ∈ cs, IsStep c) :
    parts (joinComponents (dots dotted ++ cs)) = ⟨false, dotted, cs.map (·.text.toList)⟩ := by
  obtain ⟨c, rest, rfl⟩ := List.exists_cons_of_ne_nil hne
  have hparts : ∀ p ∈ (c :: rest).map (·.text.toList), '/' ∉ p ∧ isIdle p = false := by
    intro p hp
    obtain ⟨c', hc', rfl⟩ := List.mem_map.mp hp
    exact ⟨(hcs c' hc').part.2.1, (hcs c' hc').part.1⟩
  have hidle := (hcs c List.mem_cons_self).part.1
  rw [isIdle, Bool.or_eq_false_iff, beq_eq_false_iff_ne, beq_eq_false_iff_ne] at hidle
  cases dotted with
  | false =>
    have hsplit : Text.split '/' (joinComponents (c :: rest)).toList =
        (c :: rest).map (·.text.toList) := by
      rw [joinComponents_eq, Text.split_joinWith (by simp) fun p hp => (hparts p hp).1]
    have hhead : (Text.split '/' (joinComponents (c :: rest)).toList).head? ≠ some ['.'] := by
      rw [hsplit, List.map_cons, List.head?_cons, Ne, Option.some_inj]
      exact hidle.2
    rw [← hsplit]
    exact parts_of_plain (isAbsolute_of_split hsplit hidle.1) hhead
  | true =>
    have hsplit : Text.split '/' (joinComponents (.current :: c :: rest)).toList =
        ['.'] :: (c :: rest).map (·.text.toList) := by
      rw [joinComponents_eq, List.map_cons, Text.split_joinWith (by simp)]
      · rfl
      · exact List.forall_mem_cons.mpr ⟨by decide, fun p hp => (hparts p hp).1⟩
    exact parts_of_dotted (isAbsolute_of_split hsplit (by simp)) hsplit

theorem parent?_joinComponents (dotted : Bool) {cs : List Component} {c : Component}
    (hcs : ∀ c' ∈ cs, IsStep c') (hc : IsStep c) :
    parent? (joinComponents (dots dotted ++ (cs ++ [c]))) =
      some (joinComponents (dots dotted ++ cs)) := by
  have hall : ∀ c' ∈ cs ++ [c], IsStep c' :=
    List.forall_mem_append.mpr ⟨hcs, List.forall_mem_singleton.mpr hc⟩
  have hidle : ∀ p ∈ cs.map (·.text.toList), isIdle p = false := by
    intro p hp
    obtain ⟨c', hc', rfl⟩ := List.mem_map.mp hp
    exact (hcs c' hc').part.1
  rw [parent?, parts_joinComponents dotted (by simp) hall]
  simp only [List.map_append, List.map_cons, List.map_nil, List.reverse_append, List.reverse_cons,
    List.reverse_nil, List.nil_append, List.cons_append]
  rw [List.dropWhile_cons_of_neg (by simp [hc.part.1])]
  simp only [List.reverse_reverse, dropIdleEnd_of_not_idle hidle, toText_relative]

end Path

namespace Inputs

open BuildPlan.Path (components steps IsName IsStep IsHeaderName dots)
open FileTree (NamesBefore Rearranged pathAlong)

variable {t t' : FileTree} {root dir path : String} {loc : Location} {names others : List String}
  {item : Item}

/-! ## Paths below a directory of the project -/

/-- The components of a directory of the project, seen from the project. -/
def ownComponents (root dir : String) : List Component :=
  if root = "" then components dir else steps dir

/-- The path from the project of what the names lead to from one of its directories. -/
def spelled (root dir : String) (names : List String) : String :=
  Path.joinComponents (ownComponents root dir ++ names.map .name)

theorem components_join_ownComponents (hdir : Path.isAbsolute dir = false) :
    components (Path.join root dir) = components root ++ ownComponents root dir := by
  by_cases hroot : root = ""
  · rw [ownComponents, if_pos hroot, hroot, Path.join_empty]
    rfl
  · rw [ownComponents, if_neg hroot, Path.components_join hroot hdir]

theorem exists_ownComponents_eq (root : String) (hdir : Path.isAbsolute dir = false) :
    ∃ dotted, ownComponents root dir = dots dotted ++ steps dir := by
  by_cases hroot : root = ""
  · rw [ownComponents, if_pos hroot, Path.components_eq, Path.lead, hdir, if_neg Bool.false_ne_true]
    split_ifs
    · exact ⟨true, rfl⟩
    · exact ⟨false, rfl⟩
  · exact ⟨false, by rw [ownComponents, if_neg hroot]; rfl⟩

theorem relative_eq_spelled (hdir : Path.isAbsolute dir = false)
    (h : components path = components (Path.join root dir) ++ names.map .name) :
    relative root path = spelled root dir names ∧
      components (spelled root dir names) = ownComponents root dir ++ names.map .name := by
  rw [components_join_ownComponents hdir, List.append_assoc] at h
  obtain ⟨s, hs, hpath, -⟩ := Path.components_stripBase? (h ▸ List.prefix_append _ _ :
    components root <+: components path)
  have hsame : components s = ownComponents root dir ++ names.map .name :=
    List.append_cancel_left (hpath.symm.trans h)
  rw [relative, hs, Option.getD_some, spelled, ← hsame]
  exact ⟨rfl, Path.components_joinComponents s⟩

theorem isStep_below (dir : String) (hnames : ∀ n ∈ names, IsName n) :
    ∀ c ∈ steps dir ++ names.map .name, IsStep c := by
  intro c hc
  rcases List.mem_append.mp hc with hc | hc
  · exact Path.isStep_of_mem_steps hc
  · obtain ⟨n, hn, rfl⟩ := List.mem_map.mp hc
    exact hnames n hn

theorem components_spelled (hdir : Path.isAbsolute dir = false) (hnames : ∀ n ∈ names, IsName n) :
    components (spelled root dir names) = ownComponents root dir ++ names.map .name := by
  have hpath : components (pathAlong (Path.join root dir) names) = _ :=
    FileTree.components_pathAlong hnames
  exact (relative_eq_spelled hdir hpath).2

theorem steps_spelled (hdir : Path.isAbsolute dir = false) (hnames : ∀ n ∈ names, IsName n) :
    steps (spelled root dir names) = steps dir ++ names.map .name := by
  obtain ⟨dotted, hown⟩ := exists_ownComponents_eq root hdir
  have hdots : (dots dotted).filter (!Path.isLead ·) = [] := by cases dotted <;> rfl
  rw [Path.steps_eq_filter, components_spelled hdir hnames, hown, List.append_assoc,
    List.filter_append, hdots, List.nil_append, List.filter_eq_self]
  exact fun c hc => by rw [(isStep_below dir hnames c hc).isLead]; rfl

theorem isAbsolute_spelled (hdir : Path.isAbsolute dir = false) (hnames : ∀ n ∈ names, IsName n) :
    Path.isAbsolute (spelled root dir names) = false := by
  obtain ⟨dotted, hown⟩ := exists_ownComponents_eq root hdir
  rw [Bool.eq_false_iff, Ne, Path.isAbsolute_iff_head, components_spelled hdir hnames, hown,
    List.append_assoc]
  cases dotted with
  | true => simp [dots]
  | false =>
    intro hroot
    exact isStep_below dir hnames .root (List.mem_of_mem_head? hroot)

theorem parent?_spelled (hdir : Path.isAbsolute dir = false) {name : String}
    (hnames : ∀ n ∈ names ++ [name], IsName n) :
    Path.parent? (spelled root dir (names ++ [name])) = some (spelled root dir names) := by
  obtain ⟨dotted, hown⟩ := exists_ownComponents_eq root hdir
  obtain ⟨hfront, hlast⟩ := List.forall_mem_append.mp hnames
  rw [spelled, spelled, hown, List.map_append, List.map_singleton, List.append_assoc,
    List.append_assoc, ← List.append_assoc (steps dir)]
  exact Path.parent?_joinComponents dotted (isStep_below dir hfront) (hlast name List.mem_cons_self)

theorem pairwise_spelled (hdir : Path.isAbsolute dir = false) {found : List (List String)}
    (hnames : ∀ names ∈ found, ∀ n ∈ names, IsName n) (h : found.Pairwise NamesBefore) :
    (found.map (spelled root dir)).Pairwise Path.Before := by
  refine List.pairwise_map.mpr (h.imp_of_mem fun {names others} hmem hmem' hbefore => ?_)
  rw [Path.Before, components_spelled hdir (hnames names hmem),
    components_spelled hdir (hnames others hmem'), List.map_append, List.map_append]
  refine List.append_left_lt ?_
  rwa [List.map_map, List.map_map]

theorem reached_spelled (ht : t.WellNamed) (hdir : Path.isAbsolute dir = false)
    (hloc : t.reached (Path.join root dir) = .ok loc) (h : t.Below loc names item) :
    t.reached (Path.join root (spelled root dir names)) = .ok (loc ++ names) := by
  have hpath : components (pathAlong (Path.join root dir) names) =
      components (Path.join root dir) ++ names.map .name :=
    FileTree.components_pathAlong (h.isName ht)
  rw [← h.reached_pathAlong ht hloc, ← (relative_eq_spelled hdir hpath).1]
  exact FileTree.reached_congr (components_join_relative
    (absolute_or_below_extend (absolute_or_below_join root dir) (hpath ▸ List.prefix_append _ _)))

/-! ## Headers and directories -/

/-- A header stands where the names lead from a location. -/
def HeaderBelow (t : FileTree) (loc : Location) (names : List String) : Prop :=
  ∃ front name data executable, names = front ++ [name] ∧ IsHeaderName name ∧
    t.Below loc names (.file data executable)

theorem isHeader_iff (ht : t.WellNamed) (hat : t.at? loc = some .directory)
    (h : t.Below loc names item) :
    isHeader (pathAlong path names, item) = true ↔ HeaderBelow t loc names := by
  have hitem (other : Item) (hother : t.Below loc names other) : other = item :=
    Option.some.inj (hother.at?.symm.trans h.at?)
  cases item with
  | directory =>
    refine iff_of_false Bool.false_ne_true ?_
    rintro ⟨-, -, data, executable, -, -, hfile⟩
    cases hitem _ hfile
  | file data executable =>
    rcases List.eq_nil_or_concat' names with rfl | ⟨front, name, rfl⟩
    · -- the walk starts at a directory
      have hfile := h.at?
      rw [List.append_nil, hat] at hfile
      cases hfile
    · have hname : Path.fileName? (pathAlong path (front ++ [name])) = some name := by
        rw [Path.fileName?, FileTree.components_pathAlong (h.isName ht), List.map_append,
          ← List.append_assoc, List.map_singleton, List.getLast?_concat]
      rw [isHeader, beq_iff_eq, Path.extension?_eq_h_iff hname]
      constructor
      · exact fun hheader => ⟨front, name, data, executable, rfl, hheader, h⟩
      · rintro ⟨front', name', -, -, hsame, hheader, -⟩
        rwa [(List.cons.inj (List.append_inj' hsame rfl).2).1]

def headerNames (t : FileTree) (path : String) (loc : Location) : List (List String) :=
  ((t.descend t.depthBound loc).filter fun found => isHeader (pathAlong path found.1, found.2)).map
    (·.1)

def directoryNames (t : FileTree) (loc : Location) : List (List String) :=
  ((t.descend t.depthBound loc).filter fun found => found.2 == .directory).map (·.1)

theorem pairwise_headerNames (hdistinct : t.Distinct) (path : String) (loc : Location) :
    (headerNames t path loc).Pairwise NamesBefore :=
  List.pairwise_map.mpr ((FileTree.pairwise_descend hdistinct t.depthBound loc).filter _)

theorem exists_file_of_mem_headerNames (h : names ∈ headerNames t path loc) :
    ∃ data executable, t.Below loc names (.file data executable) := by
  obtain ⟨found, hfound, rfl⟩ := List.mem_map.mp h
  obtain ⟨hmem, hheader⟩ := List.mem_filter.mp hfound
  obtain ⟨names, item⟩ := found
  cases item with
  | directory => cases hheader
  | file data executable => exact ⟨data, executable, FileTree.below_of_mem_descend hmem⟩

theorem enumerates_headerNames (ht : t.WellNamed) (hdistinct : t.Distinct)
    (hat : t.at? loc = some .directory) (path : String) :
    Enumerates NamesBefore (headerNames t path loc) (HeaderBelow t loc) := by
  refine ((FileTree.enumerates_descend hdistinct loc).filter _).map.congr fun names => ?_
  constructor
  · rintro ⟨⟨names, item⟩, ⟨hbelow, hheader⟩, rfl⟩
    exact (isHeader_iff ht hat hbelow).mp hheader
  · intro hheader
    have hfile := hheader
    obtain ⟨-, -, data, executable, -, -, hbelow⟩ := hfile
    exact ⟨(names, .file data executable), ⟨hbelow, (isHeader_iff ht hat hbelow).mpr hheader⟩,
      rfl⟩

theorem enumerates_directoryNames (hdistinct : t.Distinct) (loc : Location) :
    Enumerates NamesBefore (directoryNames t loc) (t.Below loc · .directory) := by
  refine ((FileTree.enumerates_descend hdistinct loc).filter _).map.congr fun names => ?_
  constructor
  · rintro ⟨⟨names, item⟩, ⟨hbelow, hdirectory⟩, rfl⟩
    rwa [← beq_iff_eq.mp hdirectory]
  · exact fun hbelow => ⟨(names, .directory), ⟨hbelow, beq_self_eq_true _⟩, rfl⟩

theorem exists_directoryNames_eq (hat : t.at? loc = some .directory) :
    ∃ below, directoryNames t loc = [] :: below := by
  rw [directoryNames, FileTree.depthBound, FileTree.descend, hat]
  exact ⟨_, rfl⟩

theorem walkIncludes_eq (ht : t.WellNamed) (hdir : Path.isAbsolute dir = false)
    (hlookup : t.lookup (Path.join root dir) = .ok (loc, item)) :
    walkIncludes t root dir = .ok
      ((headerNames t (Path.join root dir) loc).map (spelled root dir),
        (directoryNames t loc).map (spelled root dir)) := by
  have hspelled (keep : List String × Item → Bool) :
      ((t.descend t.depthBound loc).filter keep).map
          (fun found => relative root (pathAlong (Path.join root dir) found.1)) =
        (((t.descend t.depthBound loc).filter keep).map (·.1)).map (spelled root dir) := by
    rw [List.map_map]
    refine List.map_congr_left fun found hfound => ?_
    have hbelow := FileTree.below_of_mem_descend (List.mem_of_mem_filter hfound)
    exact (relative_eq_spelled hdir (FileTree.components_pathAlong (hbelow.isName ht))).1
  have hwalk : t.walk (Path.join root dir) =
      .ok (t.walkFrom t.depthBound (Path.join root dir) loc) :=
    FileTree.walk_eq_ok_iff.mpr ⟨loc, item, hlookup, rfl⟩
  unfold walkIncludes
  dsimp only
  rw [hwalk, FileTree.walkFrom_eq_map_descend]
  simp only [List.filter_map, List.map_map]
  rw [headerNames, directoryNames, ← hspelled, ← hspelled]
  rfl

/-! ## All that is collected -/

/-- What the walk through the include directory at a location comes to. -/
structure Collected (t : FileTree) (root dir : String) (loc : Location)
    (headers dirs : List String) : Prop where
  /-- All headers below the directory. -/
  headers_eq : ∃ found, Enumerates NamesBefore found (HeaderBelow t loc) ∧
    headers = found.map (spelled root dir)
  /-- The directory, then all others below it. -/
  dirs_eq : ∃ below, Enumerates NamesBefore below
      (fun names => names ≠ [] ∧ t.Below loc names .directory) ∧
    dirs = spelled root dir [] :: below.map (spelled root dir)
  /-- From the project, the paths lead to what is found. -/
  reached : ∀ names item, t.Below loc names item →
    t.reached (Path.join root (spelled root dir names)) = .ok (loc ++ names)
  headers_ascending : headers.Pairwise Path.Before
  dirs_ascending : dirs.Pairwise Path.Before
  parents : ∀ header ∈ headers, ∃ d ∈ dirs, Path.parent? header = some d

theorem collected (ht : t.WellNamed) (hdistinct : t.Distinct) (hdir : Path.isAbsolute dir = false)
    (hlookup : t.lookup (Path.join root dir) = .ok (loc, .directory)) :
    Collected t root dir loc ((headerNames t (Path.join root dir) loc).map (spelled root dir))
      ((directoryNames t loc).map (spelled root dir)) := by
  obtain ⟨-, hloc, hat, -⟩ := FileTree.lookup_eq_ok_iff.mp hlookup
  have hheaders := enumerates_headerNames ht hdistinct hat (Path.join root dir)
  have hdirs := enumerates_directoryNames hdistinct loc
  refine ⟨⟨_, hheaders, rfl⟩, ?_, fun names item h => reached_spelled ht hdir hloc h, ?_, ?_, ?_⟩
  · obtain ⟨below, hbelow⟩ := exists_directoryNames_eq hat
    rw [hbelow] at hdirs ⊢
    exact ⟨below, hdirs.tail (List.lt_irrefl _), rfl⟩
  · refine pairwise_spelled hdir (fun names hnames => ?_) hheaders.ascending
    obtain ⟨-, -, data, executable, -, -, hbelow⟩ := (hheaders.mem_iff names).mp hnames
    exact hbelow.isName ht
  · exact pairwise_spelled hdir
      (fun names hnames => ((hdirs.mem_iff names).mp hnames).isName ht) hdirs.ascending
  · intro header hheader
    obtain ⟨names, hnames, rfl⟩ := List.mem_map.mp hheader
    obtain ⟨front, name, data, executable, rfl, -, hbelow⟩ := (hheaders.mem_iff names).mp hnames
    exact ⟨spelled root dir front, List.mem_map_of_mem ((hdirs.mem_iff front).mpr hbelow.directory),
      parent?_spelled hdir (hbelow.isName ht)⟩

theorem walkIncludes_rearranged (hdistinct : t.Distinct) (h : Rearranged t t')
    (root dir : String) : walkIncludes t' root dir = walkIncludes t root dir := by
  unfold walkIncludes
  dsimp only
  rw [h.walk_eq hdistinct]

/-- **Headers are collected exactly**: all headers below the include directory, each once and in the
order of their paths, and the include directory with all directories below it. The directory of each
header is among these, and all of them are watched next to the test directory. The order in which
the tree has its items does not matter. -/
theorem header_collection (ht : t.WellNamed) (hdistinct : t.Distinct) (p : Project) (root : String)
    (hrelative : Path.isAbsolute p.includes.dir = false)
    (hdirectory : t.isDirectory (Path.join root p.includes.dir) = true) :
    ∃ loc headers dirs,
      t.lookup (Path.join root p.includes.dir) = .ok (loc, .directory) ∧
      walkIncludes t root p.includes.dir = .ok (headers, dirs) ∧
      Collected t root p.includes.dir loc headers dirs ∧
      p.tests.dir ∈ watched t root p dirs ∧
      (∀ d ∈ dirs, ∃ d' ∈ watched t root p dirs, components d' = components d) ∧
      ∀ t', Rearranged t t' → walkIncludes t' root p.includes.dir = .ok (headers, dirs) := by
  obtain ⟨loc, hlookup⟩ := FileTree.isDirectory_eq_true_iff.mp hdirectory
  have hwalk := walkIncludes_eq ht hrelative hlookup
  exact ⟨loc, _, _, hlookup, hwalk, collected ht hdistinct hrelative hlookup, mem_watched_tests,
    fun d hd => components_mem_addNew hd,
    fun t' h => (walkIncludes_rearranged hdistinct h root _).trans hwalk⟩

namespace Nested

open Generation.Sample (project)

/-- A header next to a directory that is named like it, and a file that is no header. -/
def tree : FileTree where
  items :=
    [(["p", "include", "a.h"], .file [] false), (["p"], .directory),
      (["p", "include", ".h"], .file [] false), (["p", "include"], .directory),
      (["p", "include", "a", "x.h"], .file [] false), (["p", "include", "a"], .directory)]

theorem walkIncludes_tree :
    walkIncludes tree "p" "include" =
      .ok (["include/a/x.h", "include/a.h"], ["include", "include/a"]) := by
  have hlookup : tree.lookup (Path.join "p" "include") = .ok (["p", "include"], .directory) := by
    decide +kernel
  have hat : tree.at? ["p", "include"] = some .directory := by decide +kernel
  have hchildren : tree.children ["p", "include"] = [".h", "a", "a.h"] :=
    (FileTree.eq_sortNames (by decide +kernel) (by decide +kernel)).symm
  unfold walkIncludes FileTree.walk
  dsimp only
  rw [hlookup]
  dsimp only
  rw [show tree.depthBound = 4 + 1 by decide +kernel, FileTree.walkFrom, hat, hchildren]
  decide +kernel

/-- By its characters alone, the path that comes last would come first. -/
theorem header_collection_nested :
    tree.WellNamed ∧ tree.Distinct ∧ Path.isAbsolute project.includes.dir = false ∧
      tree.isDirectory (Path.join "p" project.includes.dir) = true ∧
      Collected tree "p" "include" ["p", "include"] ["include/a/x.h", "include/a.h"]
        ["include", "include/a"] ∧
      (∀ d ∈ ["include", "include/a"], ∃ d' ∈ watched tree "p" project ["include", "include/a"],
        components d' = components d) ∧
      "include/a.h" < "include/a/x.h" := by
  have ht : tree.WellNamed := by decide +kernel
  have hdistinct : tree.Distinct := by decide +kernel
  have hrelative : Path.isAbsolute project.includes.dir = false := by decide +kernel
  have hdirectory : tree.isDirectory (Path.join "p" project.includes.dir) = true := by
    decide +kernel
  obtain ⟨loc, headers, dirs, hlookup, hwalk, hcollected, -, hwatched, -⟩ :=
    header_collection ht hdistinct project "p" hrelative hdirectory
  have hplace : tree.lookup (Path.join "p" project.includes.dir) =
      .ok (["p", "include"], .directory) := by decide +kernel
  obtain ⟨rfl, -⟩ := Prod.mk.inj (Except.ok.inj (hplace.symm.trans hlookup))
  obtain ⟨rfl, rfl⟩ := Prod.mk.inj (Except.ok.inj (walkIncludes_tree.symm.trans hwalk))
  exact ⟨ht, hdistinct, hrelative, hdirectory, hcollected, hwatched, by decide +kernel⟩

end Nested

end Inputs

end BuildPlan
