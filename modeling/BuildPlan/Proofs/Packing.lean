import BuildPlan.Pack.Step
import BuildPlan.Proofs.HeaderWalk
import BuildPlan.Proofs.Layout

/-!
# Headers found are headers packed

The generator finds the headers below the include directory and names them relative to the project;
a packing step is given these names, and the include directory's own, behind the way to the project.
However the directory is spelled, the step finds every header below it, packs it under the names
that lead to it from there, and its contents can be got back (`headers_packed`).
-/

namespace BuildPlan

/-! ## Runs of packed headers -/

namespace PackedHeaders

variable {h : PackedHeaders}

theorem map_path_pushAll (h : PackedHeaders) (parts : List (String × Bytes)) :
    (h.pushAll parts).entries.map (·.path) = h.entries.map (·.path) ++ parts.map (·.1) := by
  induction parts generalizing h with
  | nil => exact (List.append_nil _).symm
  | cons part parts ih =>
    rw [pushAll_cons, ih, push, List.map_append, List.append_assoc]
    rfl

/-- **Whatever is packed under a name of its own can be got back.** -/
theorem get?_pushAll (hclosed : h.Closed) {parts : List (String × Bytes)}
    (hnodup : (h.entries.map (·.path) ++ parts.map (·.1)).Nodup) {part : String × Bytes}
    (hpart : part ∈ parts) (hnul : 0 ∉ part.2) :
    (h.pushAll parts).get? part.1 = some part.2 := by
  obtain ⟨-, hparts, hapart⟩ := List.nodup_append.mp hnodup
  have hnew : h.get? part.1 = none := by
    rw [get?, Option.map_eq_none_iff, List.find?_eq_none]
    intro e he hpath
    exact hapart _ (List.mem_map.mpr ⟨e, he, beq_iff_eq.mp hpath⟩) _
      (List.mem_map.mpr ⟨part, hpart, rfl⟩) rfl
  have hfirst : parts.find? (·.1 == part.1) = some part := by
    obtain ⟨before, after, rfl⟩ := List.append_of_mem hpart
    rw [List.find?_append, List.find?_eq_none.mpr, Option.none_or, List.find?_cons_of_pos (by simp)]
    intro other hother hname
    rw [List.map_append] at hparts
    exact (List.nodup_append.mp hparts).2.2 _ (List.mem_map.mpr ⟨other, hother, rfl⟩) _
      (List.mem_map.mpr ⟨part, List.mem_cons_self, rfl⟩) (beq_iff_eq.mp hname)
  rw [get?_pushAll_eq hclosed, hnew, hfirst, Option.none_or, Option.map_some,
    untilNul_of_notMem hnul]

end PackedHeaders

/-! ## Packing steps -/

namespace Text

theorem toUtf8_of_ofUtf8? {data : Bytes} {s : String} (h : ofUtf8? data = some s) :
    toUtf8 s = data := by
  unfold ofUtf8? String.fromUTF8? at h
  split at h
  · obtain rfl := Option.some.inj h
    rfl
  · cases h

end Text

namespace Pack

open BuildPlan.Path (components steps IsName)

/-- What a header is packed as: its name, and the contents that are read at its path. -/
def Packs (t : FileTree) (root header : String) (part : String × Bytes) : Prop :=
  packedPath? root header = some part.1 ∧
    ∃ text, t.readText header = .ok text ∧ Text.toUtf8 text = part.2

theorem packOnto_eq {t : FileTree} {root : String} {headers : List String}
    {parts : List (String × Bytes)} (h : List.Forall₂ (Packs t root) headers parts)
    (packed : PackedHeaders) : packOnto t root packed headers = .ok (packed.pushAll parts) := by
  induction h generalizing packed with
  | nil => rfl
  | cons hfirst _ ih =>
    obtain ⟨hname, text, htext, hdata⟩ := hfirst
    rw [packOnto, hname, textAt, htext]
    simp only [hdata, ih]
    rfl

/-- The name under which a header is packed that the given names lead to. -/
def virtualPath (names : List String) : String :=
  Text.joinWith "/" (includeRoot :: names)

theorem virtualPath_eq {names : List String} (h : names ≠ []) :
    virtualPath names = includeRoot ++ "/" ++ Text.joinWith "/" names := by
  rw [virtualPath, Text.joinWith]
  exact h

theorem virtualPath_injective {names names' : List String} (hnames : ∀ n ∈ names, IsName n)
    (hnames' : ∀ n ∈ names', IsName n) (h : virtualPath names = virtualPath names') :
    names = names' := by
  have hsplit : ∀ {names : List String}, (∀ n ∈ names, IsName n) →
      Text.split '/' (virtualPath names).toList = (includeRoot :: names).map String.toList := by
    intro names hnames
    have hslash : ∀ part ∈ (includeRoot :: names).map String.toList, '/' ∉ part := by
      intro part hpart
      obtain ⟨n, hn, rfl⟩ := List.mem_map.mp hpart
      rcases List.mem_cons.mp hn with rfl | hn
      · decide
      · exact (hnames n hn).2.2
    have hjoin := Text.split_joinWith (by simp) hslash
    rwa [List.map_map, show String.ofList ∘ String.toList = id from funext fun _ =>
      String.ofList_toList, List.map_id] at hjoin
  have hparts := hsplit hnames
  rw [h, hsplit hnames'] at hparts
  exact (List.cons.inj (List.map_injective_iff.mpr (fun _ _ => String.toList_inj.mp) hparts)).2.symm

theorem packedPath?_eq (top : String) {dir header : String} {names : List String}
    (h : steps header = steps dir ++ names.map .name) :
    packedPath? (top ++ "/" ++ dir) (top ++ "/" ++ header) = some (virtualPath names) := by
  have hcomponents : components (top ++ "/" ++ header) =
      components (top ++ "/" ++ dir) ++ names.map .name := by
    rw [Path.components_below, Path.components_below, h, List.append_assoc]
  obtain ⟨s, hs, hpath, -⟩ := Path.components_stripBase? ⟨_, hcomponents.symm⟩
  rw [hcomponents] at hpath
  rw [packedPath?, hs, Option.map_some, ← List.append_cancel_left hpath, Path.map_text_names,
    virtualPath]

end Pack

/-! ## Trees seen from another directory -/

namespace FileTree

variable {t : FileTree}

/-- The contents of the file at a location; empty where there is none. -/
def dataAt (t : FileTree) (loc : Location) : Bytes :=
  match t.at? loc with
  | some (.file data _) => data
  | _ => []

/-- The tree as a program sees it that runs in another directory. -/
def seenFrom (t : FileTree) (cwd : Location) : FileTree :=
  { t with cwd := cwd }

theorem follow_seenFrom (t : FileTree) (cwd loc : Location) (cs : List Component) :
    (t.seenFrom cwd).follow loc cs = t.follow loc cs := by
  induction cs generalizing loc with
  | nil => rfl
  | cons c cs ih =>
    have halong : (t.seenFrom cwd).along loc c = t.along loc c := by cases c <;> rfl
    rw [follow, follow, halong]
    cases t.along loc c with
    | error e => rfl
    | ok next => exact ih next

/-- A way to the root can be gone on from, wherever a program runs. -/
theorem reached_below {cwd : Location} {top root rel : String}
    (htop : (t.seenFrom cwd).reached (top ++ "/") = t.reached root)
    (hrel : Path.isAbsolute rel = false) :
    (t.seenFrom cwd).reached (top ++ "/" ++ rel) = t.reached (Path.join root rel) := by
  rw [reached_eq_follow, Path.components_below, follow_append, ← reached_eq_follow, htop,
    reached_join t root hrel]
  simp only [follow_seenFrom]

theorem exists_file_of_readText {path text : String} (h : t.readText path = .ok text) :
    ∃ loc executable, t.reached path = .ok loc ∧
      t.at? loc = some (.file (Text.toUtf8 text) executable) := by
  unfold readText read at h
  split at h
  · cases h
  · rename_i data hdata
    split at h
    · rename_i s hs
      obtain rfl := Except.ok.inj h
      split at hdata
      · cases hdata
      · cases hdata
      · rename_i loc contents executable hlookup
        obtain rfl := Except.ok.inj hdata
        obtain ⟨-, hloc, hat, -⟩ := lookup_eq_ok_iff.mp hlookup
        rw [Text.toUtf8_of_ofUtf8? hs]
        exact ⟨loc, executable, hloc, hat⟩
    · cases h

end FileTree

/-! ## Headers found and packed -/

namespace Inputs

open BuildPlan.Path (steps IsName)

variable {t : FileTree} {root dir : String}

/-- What is known of a header below an include directory at `loc`: the names that lead to it. -/
structure FoundHeader (t : FileTree) (root dir : String) (loc : Location) (header : String)
    (names : List String) : Prop where
  relative : Path.isAbsolute header = false
  isName : ∀ n ∈ names, IsName n
  steps : steps header = steps dir ++ names.map .name
  reached : t.reached (Path.join root header) = .ok (loc ++ names)
  file : ∃ data executable, t.at? (loc ++ names) = some (.file data executable)

theorem foundHeader_spelled (ht : t.WellNamed) (hdir : Path.isAbsolute dir = false)
    {loc : Location} (hloc : t.reached (Path.join root dir) = .ok loc) {names : List String}
    (hnames : names ∈ headerNames t (Path.join root dir) loc) :
    FoundHeader t root dir loc (spelled root dir names) names := by
  obtain ⟨data, executable, hbelow⟩ := exists_file_of_mem_headerNames hnames
  have hproper := hbelow.isName ht
  exact ⟨isAbsolute_spelled hdir hproper, hproper, steps_spelled hdir hproper,
    reached_spelled ht hdir hloc hbelow, data, executable, hbelow.at?⟩

theorem exists_foundHeaders (ht : t.WellNamed) (hdistinct : t.Distinct)
    (hdir : Path.isAbsolute dir = false) {headers dirs : List String}
    (h : walkIncludes t root dir = .ok (headers, dirs)) :
    ∃ loc names, t.reached (Path.join root dir) = .ok loc ∧
      List.Forall₂ (FoundHeader t root dir loc) headers names ∧ names.Nodup := by
  obtain ⟨items, hwalk, -⟩ := walkIncludes_eq_ok h
  obtain ⟨loc, item, hlookup, -⟩ := FileTree.walk_eq_ok_iff.mp hwalk
  obtain ⟨-, hloc, -⟩ := FileTree.lookup_eq_ok_iff.mp hlookup
  rw [walkIncludes_eq ht hdir hlookup] at h
  obtain ⟨rfl, -⟩ := Prod.mk.inj (Except.ok.inj h)
  refine ⟨loc, headerNames t (Path.join root dir) loc, hloc, ?_, ?_⟩
  · rw [List.forall₂_map_left_iff, List.forall₂_same]
    exact fun names hnames => foundHeader_spelled ht hdir hloc hnames
  · refine (pairwise_headerNames hdistinct _ loc).imp fun hbefore hsame => ?_
    rw [hsame] at hbefore
    exact List.lt_irrefl _ hbefore

end Inputs

namespace Pack

open Inputs (FoundHeader)

variable {t : FileTree} {root : String} {p : Project}

theorem packs_of_foundHeader {dir header : String} {loc cwd : Location} {names : List String}
    {top : String} (h : FoundHeader t root dir loc header names)
    (htop : (t.seenFrom cwd).reached (top ++ "/") = t.reached root)
    (hread : ∃ text, (t.seenFrom cwd).readText (top ++ "/" ++ header) = .ok text) :
    Packs (t.seenFrom cwd) (top ++ "/" ++ dir) (top ++ "/" ++ header)
      (virtualPath names, t.dataAt (loc ++ names)) := by
  obtain ⟨text, htext⟩ := hread
  obtain ⟨loc', executable, hloc', hat⟩ := FileTree.exists_file_of_readText htext
  rw [FileTree.reached_below htop h.relative, h.reached] at hloc'
  obtain rfl := Except.ok.inj hloc'
  have hdata : t.dataAt (loc ++ names) = Text.toUtf8 text := by
    rw [FileTree.dataAt, show t.at? (loc ++ names) = _ from hat]
  exact ⟨packedPath?_eq top h.steps, text, htext, hdata.symm⟩

/-- What is packed: the names of headers below `loc`, with their contents. -/
def partsAt (t : FileTree) (loc : Location) (names : List (List String)) :
    List (String × Bytes) :=
  names.map fun ns => (virtualPath ns, t.dataAt (loc ++ ns))

theorem map_fst_partsAt (t : FileTree) (loc : Location) (names : List (List String)) :
    (partsAt t loc names).map (·.1) = names.map virtualPath := by
  rw [partsAt, List.map_map]
  rfl

section Found

variable {dir : String} {headers : List String} {loc cwd : Location} {names : List (List String)}
  {top : String}

theorem packHeaders_eq (hfound : List.Forall₂ (FoundHeader t root dir loc) headers names)
    (hne : headers ≠ []) (htop : (t.seenFrom cwd).reached (top ++ "/") = t.reached root)
    (hread : ∀ h ∈ headers, ∃ text, (t.seenFrom cwd).readText (top ++ "/" ++ h) = .ok text) :
    packHeaders (t.seenFrom cwd) (top ++ "/" ++ dir) (headers.map (top ++ "/" ++ ·)) =
      .ok (PackedHeaders.pushAll {} (partsAt t loc names)) := by
  have hparts : List.Forall₂ (Packs (t.seenFrom cwd) (top ++ "/" ++ dir))
      (headers.map (top ++ "/" ++ ·)) (partsAt t loc names) := by
    rw [partsAt, List.forall₂_map_left_iff, List.forall₂_map_right_iff]
    exact forall₂_imp_of_mem hfound fun h hh ns hns => packs_of_foundHeader hns htop (hread h hh)
  obtain ⟨h, rest, hcons⟩ := List.exists_cons_of_ne_nil hne
  rw [hcons, List.map_cons, packHeaders, ← List.map_cons, ← hcons, packOnto_eq hparts]

theorem nodup_virtualPaths (hfound : List.Forall₂ (FoundHeader t root dir loc) headers names)
    (hnodup : names.Nodup) : (names.map virtualPath).Nodup := by
  have hnames : ∀ ns ∈ names, ∀ n ∈ ns, Path.IsName n := fun ns hns => by
    obtain ⟨header, -, hheader⟩ := exists_mem_of_forall₂_right hfound hns
    exact hheader.isName
  exact hnodup.map_on fun ns hns ns' hns' => virtualPath_injective (hnames ns hns) (hnames ns' hns')

/-- A header is not the include directory itself. -/
theorem virtualPath_of_mem (hfound : List.Forall₂ (FoundHeader t root dir loc) headers names)
    (hdirectory : t.at? loc = some .directory) {ns : List String} (hns : ns ∈ names) :
    virtualPath ns = includeRoot ++ "/" ++ Text.joinWith "/" ns := by
  refine virtualPath_eq ?_
  rintro rfl
  obtain ⟨header, -, hheader⟩ := exists_mem_of_forall₂_right hfound hns
  obtain ⟨data, executable, hat⟩ := hheader.file
  rw [List.append_nil, hdirectory] at hat
  cases hat

end Found

/-- **The headers that are found are the headers that are packed**, however the include directory is
spelled and from wherever the step runs, as long as `top` leads to the project. Each is packed under
the names that lead to it from the include directory, in the same order and unlike any other, and
its contents are got back. -/
theorem headers_packed (ht : t.WellNamed) (hdistinct : t.Distinct)
    (hdir : Path.isAbsolute p.includes.dir = false)
    (hinclude : t.isDirectory (Path.join root p.includes.dir) = true) {headers dirs : List String}
    (hheaders : Inputs.walkIncludes t root p.includes.dir = .ok (headers, dirs))
    (hne : headers ≠ []) {cwd : Location} {top : String}
    (htop : (t.seenFrom cwd).reached (top ++ "/") = t.reached root)
    (hread : ∀ h ∈ headers, ∃ text, (t.seenFrom cwd).readText (top ++ "/" ++ h) = .ok text) :
    ∃ loc names packed, t.reached (Path.join root p.includes.dir) = .ok loc ∧
      List.Forall₂ (fun h ns => t.reached (Path.join root h) = .ok (loc ++ ns)) headers names ∧
      packHeaders (t.seenFrom cwd) (top ++ "/" ++ p.includes.dir)
        (headers.map (top ++ "/" ++ ·)) = .ok packed ∧
      packed.entries.map (·.path) =
        names.map (fun ns => includeRoot ++ "/" ++ Text.joinWith "/" ns) ∧
      (packed.entries.map (·.path)).Nodup ∧
      ∀ ns ∈ names, ∃ data executable, t.at? (loc ++ ns) = some (.file data executable) ∧
        (0 ∉ data → packed.get? (includeRoot ++ "/" ++ Text.joinWith "/" ns) = some data) := by
  obtain ⟨loc, names, hloc, hfound, hnodup⟩ :=
    Inputs.exists_foundHeaders ht hdistinct hdir hheaders
  have hdirectory : t.at? loc = some .directory := by
    obtain ⟨loc', hlookup⟩ := FileTree.isDirectory_eq_true_iff.mp hinclude
    obtain ⟨-, hloc', hat, -⟩ := FileTree.lookup_eq_ok_iff.mp hlookup
    obtain rfl := Except.ok.inj (hloc.symm.trans hloc')
    exact hat
  have hpaths : (PackedHeaders.pushAll {} (partsAt t loc names)).entries.map (·.path) =
      names.map virtualPath := by
    rw [PackedHeaders.map_path_pushAll, map_fst_partsAt]
    rfl
  have hunique := nodup_virtualPaths hfound hnodup
  refine ⟨loc, names, PackedHeaders.pushAll {} (partsAt t loc names), hloc,
    hfound.imp fun h ns hns => hns.reached, packHeaders_eq hfound hne htop hread, ?_, ?_, ?_⟩
  · rw [hpaths]
    exact List.map_congr_left fun ns hns => virtualPath_of_mem hfound hdirectory hns
  · rwa [hpaths]
  · intro ns hns
    obtain ⟨header, -, hheader⟩ := exists_mem_of_forall₂_right hfound hns
    obtain ⟨data, executable, hat⟩ := hheader.file
    refine ⟨data, executable, hat, fun hnul => ?_⟩
    have hdata : t.dataAt (loc ++ ns) = data := by rw [FileTree.dataAt, hat]
    have hpart : (virtualPath ns, data) ∈ partsAt t loc names :=
      List.mem_map.mpr ⟨ns, hns, by rw [hdata]⟩
    rw [← virtualPath_of_mem hfound hdirectory hns]
    refine PackedHeaders.get?_pushAll ?_ ?_ hpart hnul
    · exact fun e he => absurd he List.not_mem_nil
    · rwa [map_fst_partsAt]

namespace Sample

/-- The include directory in a spelling with every kind of detour. -/
def roundabout : Project :=
  { Generation.Sample.project with includes := ⟨"./inc/../inc//", "headers.h", none⟩ }

def tree : FileTree where
  items :=
    [(["p"], .directory), (["p", "inc"], .directory), (["p", "inc", "sys"], .directory),
      (["p", "inc", "sys", "x.h"], .file [97, 10] false), (["p", "out"], .directory),
      (["p", "out", "wd"], .directory)]

theorem headers_packed_roundabout :
    ∃ packed, packHeaders (tree.seenFrom ["p", "out", "wd"]) "../.././inc/../inc//"
        ["../../inc/../inc/sys/x.h"] = .ok packed ∧
      packed.entries.map (·.path) = ["__include__/sys/x.h"] ∧
      packed.get? "__include__/sys/x.h" = some [97, 10] := by
  have hheaders : Inputs.walkIncludes tree "p" roundabout.includes.dir =
      .ok (["inc/../inc/sys/x.h"], ["inc/../inc", "inc/../inc/sys"]) := by decide +kernel
  have hread : ∀ h ∈ ["inc/../inc/sys/x.h"], ∃ text,
      (tree.seenFrom ["p", "out", "wd"]).readText ("../.." ++ "/" ++ h) = .ok text := by
    intro h hh
    obtain rfl := List.mem_singleton.mp hh
    exact ⟨"a\n", by decide +kernel⟩
  have htop : (tree.seenFrom ["p", "out", "wd"]).reached ("../.." ++ "/") = tree.reached "p" := by
    decide +kernel
  obtain ⟨loc, names, packed, hloc, hnames, hpacked, hpaths, -, hget⟩ :=
    headers_packed (p := roundabout) (by decide +kernel) (by decide +kernel) (by decide +kernel)
      (by decide +kernel) hheaders (by decide) htop hread
  have hplace : tree.reached (Path.join "p" "./inc/../inc//") = .ok ["p", "inc"] := by
    decide +kernel
  obtain rfl := Except.ok.inj (hplace.symm.trans hloc)
  obtain ⟨ns, rest, hns, hrest, rfl⟩ := List.forall₂_cons_left_iff.mp hnames
  obtain rfl := List.forall₂_nil_left_iff.mp hrest
  have hheader : tree.reached (Path.join "p" "inc/../inc/sys/x.h") =
      .ok (["p", "inc"] ++ ["sys", "x.h"]) := by decide +kernel
  obtain rfl : ["sys", "x.h"] = ns :=
    List.append_cancel_left (Except.ok.inj (hheader.symm.trans hns))
  obtain ⟨data, executable, hat, hcontents⟩ := hget _ List.mem_cons_self
  obtain rfl : [97, 10] = data := (Item.file.inj (Option.some.inj hat)).1
  exact ⟨packed, hpacked, hpaths, hcontents (by decide)⟩

end Sample

end Pack

end BuildPlan
