import BuildPlan.Files.Listing
import BuildPlan.Proofs.Writing

/-!
# How writing changes a file tree

Writing does two things to a tree, one at a time: it makes a directory where nothing stands, and it
puts a file where no directory stands (`Grows`). So whatever path led somewhere still leads there,
and a file is read as before unless it is put anew. Where directories are made is known as well: on
the way along the components of the path, each at a place that ends with a name (`OnWay`).
-/

namespace BuildPlan.FileTree

open BuildPlan.Path (components IsName)

variable {t t' t'' : FileTree} {path : String} {loc other dir : Location} {item : Item}
  {data : Bytes}

/-! ## One item -/

theorem at?_put (hne : loc ≠ []) :
    (t.put loc item).at? other = if other = loc then some item else t.at? other := by
  cases other with
  | nil =>
    rw [if_neg (Ne.symm hne)]
    rfl
  | cons name rest =>
    simp only [at?, put, List.find?_append, List.find?_filter]
    by_cases heq : name :: rest = loc
    · subst heq
      have hnone : t.items.find? (fun _ => false) = none := by
        rw [List.find?_eq_none]
        exact fun _ _ => Bool.false_ne_true
      simp [hnone]
    · have hsame : t.items.find? (fun a => decide ((a.1 != loc) = true ∧
          (a.1 == name :: rest) = true)) = t.items.find? (·.1 == name :: rest) := by
        refine congrArg (List.find? · t.items) ?_
        funext a
        by_cases ha : a.1 = name :: rest
        · simp [ha, heq]
        · simp [ha]
      rw [hsame, if_neg heq]
      simp [Ne.symm heq]

theorem children_put (hnot : ∀ name, loc ≠ dir ++ [name]) :
    (t.put loc item).children dir = t.children dir := by
  have hnone : childName? dir loc = none := by
    cases hname : childName? dir loc with
    | none => rfl
    | some name => exact absurd (childName?_eq_some_iff.mp hname) (hnot name)
  rw [children, children, put, List.filterMap_append, List.filterMap_filter]
  have hsame : (t.items.filterMap fun a =>
      if (a.1 != loc) = true then childName? dir a.1 else none) =
      t.items.filterMap fun a => childName? dir a.1 := by
    refine List.filterMap_congr fun a _ => ?_
    by_cases ha : a.1 = loc
    · rw [ha, hnone, ite_self]
    · rw [if_pos (by simpa using ha)]
  rw [hsame]
  simp [hnone]

/-! ## The files of a directory -/

theorem pairwise_sortNames (names : List String) :
    (sortNames names).Pairwise fun a b => ¬ b < a := by
  have htrans : ∀ a b c : String, (!decide (b < a)) = true → (!decide (c < b)) = true →
      (!decide (c < a)) = true := by
    intro a b c hab hbc
    rw [Bool.not_eq_true', decide_eq_false_iff_not] at hab hbc ⊢
    exact String.not_lt.mpr (String.le_trans (String.not_lt.mp hab) (String.not_lt.mp hbc))
  have htotal : ∀ a b : String, (!decide (b < a) || !decide (a < b)) = true := by
    intro a b
    rw [Bool.or_eq_true, Bool.not_eq_true', Bool.not_eq_true', decide_eq_false_iff_not,
      decide_eq_false_iff_not]
    exact (String.le_total a b).imp String.not_lt.mpr String.not_lt.mpr
  refine (List.pairwise_mergeSort htrans htotal names).imp fun h => ?_
  rwa [Bool.not_eq_true', decide_eq_false_iff_not] at h

theorem eq_sortNames {names sorted : List String} (hsorted : sorted.Pairwise fun a b => ¬ b < a)
    (hperm : sorted.Perm names) : sorted = sortNames names := by
  have hantisymm : ∀ a b : String, ¬ b < a → ¬ a < b → a = b := fun a b hab hba =>
    String.le_antisymm (String.not_lt.mp hab) (String.not_lt.mp hba)
  exact List.Perm.eq_of_pairwise (fun a b _ _ => hantisymm a b) hsorted
    (pairwise_sortNames names) (hperm.trans (List.mergeSort_perm names _).symm)

theorem filter_sortNames (names : List String) (keep : String → Bool) :
    (sortNames names).filter keep = sortNames (names.filter keep) :=
  eq_sortNames ((pairwise_sortNames names).filter keep)
    ((List.mergeSort_perm names _).filter keep)

def hasFile (t : FileTree) (loc : Location) : Bool :=
  match t.at? loc with
  | some (.file _ _) => true
  | _ => false

theorem hasFile_put_directory (hnew : t.at? loc = none) (hne : loc ≠ []) :
    (t.put loc .directory).hasFile other = t.hasFile other := by
  rw [hasFile, hasFile, at?_put hne]
  split_ifs with hsame
  · rw [hsame, hnew]
  · rfl

/-- The names of the files directly in a directory. -/
def filesOf (t : FileTree) (dir : Location) : List String :=
  (t.children dir).filter fun name => t.hasFile (dir ++ [name])

theorem filesOf_put_directory (hnew : t.at? loc = none) (hne : loc ≠ []) :
    (t.put loc .directory).filesOf dir = t.filesOf dir := by
  have hnot : t.hasFile loc = false := by rw [hasFile, hnew]
  rw [filesOf, filesOf, children, children, filter_sortNames, filter_sortNames]
  simp only [hasFile_put_directory hnew hne]
  have hnone : (childName? dir loc).filter (fun name => t.hasFile (dir ++ [name])) = none := by
    rw [Option.filter_eq_none_iff]
    intro name hname
    rw [← childName?_eq_some_iff.mp hname, hnot]
    exact Bool.false_ne_true
  rw [put, List.filterMap_append, List.filterMap_filter, List.filter_append,
    List.filter_filterMap, List.filter_filterMap, List.filter_filterMap]
  have hsame : (t.items.filterMap fun a => (if (a.1 != loc) = true then childName? dir a.1 else
      none).filter fun name => t.hasFile (dir ++ [name])) =
      t.items.filterMap fun a =>
        (childName? dir a.1).filter fun name => t.hasFile (dir ++ [name]) := by
    refine List.filterMap_congr fun a _ => ?_
    by_cases ha : a.1 = loc
    · rw [ha, hnone]
      simp
    · rw [if_pos (by simpa using ha)]
  rw [hsame]
  simp [hnone]

/-! ## Many items -/

/-- The tree `t'` comes from `t` by making directories where nothing stands, at places of the first
kind, and by putting files where no directory stands, at places of the second kind. -/
inductive Grows (dirs files : Location → Prop) (t : FileTree) : FileTree → Prop where
  | refl : Grows dirs files t t
  | directory {t' : FileTree} {loc : Location} (h : Grows dirs files t t') (hloc : dirs loc)
    (hne : loc ≠ []) (hnew : t'.at? loc = none) : Grows dirs files t (t'.put loc .directory)
  | file {t' : FileTree} {loc : Location} {data : Bytes} (h : Grows dirs files t t')
    (hloc : files loc) (hne : loc ≠ []) (hnot : t'.at? loc ≠ some .directory) :
    Grows dirs files t (t'.put loc (.file data false))

namespace Grows

variable {dirs files dirs' files' : Location → Prop}

theorem mono (h : Grows dirs files t t') (hdirs : ∀ loc, dirs loc → dirs' loc)
    (hfiles : ∀ loc, files loc → files' loc) : Grows dirs' files' t t' := by
  induction h with
  | refl => exact .refl
  | directory _ hloc hne hnew ih => exact .directory ih (hdirs _ hloc) hne hnew
  | file _ hloc hne hnot ih => exact .file ih (hfiles _ hloc) hne hnot

theorem trans (h : Grows dirs files t t') (h' : Grows dirs files t' t'') :
    Grows dirs files t t'' := by
  induction h' with
  | refl => exact h
  | directory _ hloc hne hnew ih => exact .directory ih hloc hne hnew
  | file _ hloc hne hnot ih => exact .file ih hloc hne hnot

theorem cwd (h : Grows dirs files t t') : t'.cwd = t.cwd := by
  induction h with
  | refl => rfl
  | directory _ _ _ _ ih => exact ih
  | file _ _ _ _ ih => exact ih

theorem at?_cases (h : Grows dirs files t t') (loc : Location) :
    t'.at? loc = t.at? loc ∨
      (dirs loc ∧ t.at? loc = none ∧ t'.at? loc = some .directory) ∨
      (files loc ∧ t.at? loc ≠ some .directory ∧ ∃ data, t'.at? loc = some (.file data false)) := by
  induction h with
  | refl => exact .inl rfl
  | @directory t' made _ hmade hne hnew ih =>
    rw [at?_put hne]
    split_ifs with hsame
    · subst hsame
      rcases ih with ih | ⟨-, -, hdir⟩ | ⟨-, -, data, hfile⟩
      · exact .inr (.inl ⟨hmade, ih.symm.trans hnew, rfl⟩)
      · rw [hnew] at hdir
        cases hdir
      · rw [hnew] at hfile
        cases hfile
    · exact ih
  | @file t' written data _ hwritten hne hnot ih =>
    rw [at?_put hne]
    split_ifs with hsame
    · subst hsame
      refine .inr (.inr ⟨hwritten, ?_, data, rfl⟩)
      rcases ih with ih | ⟨-, -, hdir⟩ | ⟨-, hold, -⟩
      · rwa [← ih]
      · exact absurd hdir hnot
      · exact hold
    · exact ih

/-- Directories are only made where nothing stood in the first place. -/
theorem absent (h : Grows dirs files t t') :
    Grows (fun loc => dirs loc ∧ t.at? loc = none) files t t' := by
  induction h with
  | refl => exact .refl
  | @directory t' made h hmade hne hnew ih =>
    refine .directory ih ⟨hmade, ?_⟩ hne hnew
    rcases h.at?_cases made with hsame | ⟨-, hnone, -⟩ | ⟨-, -, data, hfile⟩
    · rw [← hsame, hnew]
    · exact hnone
    · rw [hnew] at hfile
      cases hfile
  | file _ hloc hne hnot ih => exact .file ih hloc hne hnot

theorem at?_eq (h : Grows dirs files t t') (hdirs : ¬ dirs loc) (hfiles : ¬ files loc) :
    t'.at? loc = t.at? loc := by
  rcases h.at?_cases loc with hsame | ⟨hmade, -⟩ | ⟨hwritten, -⟩
  · exact hsame
  · exact absurd hmade hdirs
  · exact absurd hwritten hfiles

theorem children_eq (h : Grows dirs files t t') (hdirs : ∀ name, ¬ dirs (dir ++ [name]))
    (hfiles : ∀ name, ¬ files (dir ++ [name])) : t'.children dir = t.children dir := by
  induction h with
  | refl => rfl
  | directory _ hloc _ _ ih =>
    rw [children_put, ih]
    rintro name rfl
    exact hdirs name hloc
  | file _ hloc _ _ ih =>
    rw [children_put, ih]
    rintro name rfl
    exact hfiles name hloc

theorem at?_directory (h : Grows dirs files t t') (hdir : t.at? loc = some .directory) :
    t'.at? loc = some .directory := by
  rcases h.at?_cases loc with hsame | ⟨-, hnone, -⟩ | ⟨-, hnot, -⟩
  · rw [hsame, hdir]
  · rw [hdir] at hnone
    cases hnone
  · exact absurd hdir hnot

theorem isSome_at? (h : Grows dirs files t t') (hsome : (t.at? loc).isSome = true) :
    (t'.at? loc).isSome = true := by
  rcases h.at?_cases loc with hsame | ⟨-, hnone, -⟩ | ⟨-, -, data, hfile⟩
  · rwa [hsame]
  · rw [hnone] at hsome
    cases hsome
  · rw [hfile]
    rfl

theorem file_iff (h : Grows dirs files t t') (hfiles : ¬ files loc) (data : Bytes)
    (executable : Bool) :
    t'.at? loc = some (.file data executable) ↔ t.at? loc = some (.file data executable) := by
  rcases h.at?_cases loc with hsame | ⟨-, hnone, hdir⟩ | ⟨hput, -⟩
  · rw [hsame]
  · simp [hnone, hdir]
  · exact absurd hput hfiles

theorem at?_file (h : Grows dirs files t t') (hfiles : ¬ files loc) {executable : Bool}
    (hfile : t.at? loc = some (.file data executable)) :
    t'.at? loc = some (.file data executable) :=
  (h.file_iff hfiles data executable).mpr hfile

theorem filesOf (h : Grows dirs files t t') (hfiles : ∀ name, ¬ files (dir ++ [name])) :
    t'.filesOf dir = t.filesOf dir := by
  induction h with
  | refl => rfl
  | directory _ _ hne hnew ih => rw [filesOf_put_directory hnew hne, ih]
  | @file t' loc data _ hloc hne _ ih =>
    have hchild : ∀ name, loc ≠ dir ++ [name] := by
      rintro name rfl
      exact hfiles name hloc
    rw [← ih, FileTree.filesOf, FileTree.filesOf, children_put hchild]
    refine List.filter_congr fun name _ => ?_
    rw [hasFile, hasFile, at?_put hne, if_neg (hchild name).symm]

/-! ### Where paths lead -/

theorem hasDirectory (h : Grows dirs files t t') (hdir : t.hasDirectory loc = true) :
    t'.hasDirectory loc = true := by
  rw [FileTree.hasDirectory, beq_iff_eq] at hdir ⊢
  exact h.at?_directory hdir

theorem stepTo (h : Grows dirs files t t') {part : List Char}
    (hstep : t.stepTo loc part = .ok other) : t'.stepTo loc part = .ok other := by
  rw [FileTree.stepTo] at hstep ⊢
  split_ifs at hstep with hdir hup
  · rw [h.hasDirectory (by simpa using hdir), if_neg (by simp), if_pos hup]
    exact hstep
  · rw [h.hasDirectory (by simpa using hdir), if_neg (by simp), if_neg hup]
    dsimp only at hstep ⊢
    split_ifs at hstep with hlong hsome
    rw [if_neg hlong, if_pos (h.isSome_at? hsome)]
    exact hstep

theorem follow (h : Grows dirs files t t') {cs : List Component}
    (hfollow : t.follow loc cs = .ok other) : t'.follow loc cs = .ok other := by
  induction cs generalizing loc with
  | nil => exact hfollow
  | cons c cs ih =>
    rw [FileTree.follow] at hfollow ⊢
    cases hc : t.along loc c with
    | error e =>
      rw [hc] at hfollow
      cases hfollow
    | ok next =>
      rw [hc] at hfollow
      have hc' : t'.along loc c = .ok next := by
        cases c with
        | root => exact hc
        | current => exact hc
        | parent => exact h.stepTo hc
        | name s => exact h.stepTo hc
      rw [hc']
      exact ih hfollow

theorem reached (h : Grows dirs files t t') (hreached : t.reached path = .ok loc) :
    t'.reached path = .ok loc := by
  rw [reached_eq_follow] at hreached ⊢
  rw [h.cwd]
  exact h.follow hreached

theorem pathExists (h : Grows dirs files t t') (hexists : t.pathExists path = true) :
    t'.pathExists path = true := by
  rw [FileTree.pathExists] at hexists
  split at hexists
  · rename_i found hlookup
    obtain ⟨loc, item⟩ := found
    obtain ⟨hcheck, hreached, hat, hask⟩ := lookup_eq_ok_iff.mp hlookup
    have hsome : (t'.at? loc).isSome = true := h.isSome_at? (by rw [hat]; rfl)
    obtain ⟨item', hitem'⟩ := Option.isSome_iff_exists.mp hsome
    have hask' : item' = .directory ∨ asksForDirectory path = false := by
      rcases hask with rfl | hask
      · rw [h.at?_directory hat] at hitem'
        exact .inl (Option.some.inj hitem').symm
      · exact .inr hask
    rw [FileTree.pathExists, lookup_eq_ok_iff.mpr ⟨hcheck, h.reached hreached, hitem', hask'⟩]
  · cases hexists

end Grows

/-! ## Locations -/

theorem locate_eq (t : FileTree) (path : String) :
    t.locate path = (components path).foldl landing t.cwd := by
  rw [locate]
  congr 1

theorem locate_of_reached (h : t.reached path = .ok loc) : loc = t.locate path := by
  rw [reached_eq_follow] at h
  rw [locate_eq]
  exact follow_ok (fun c => isName_of_mem_components) h

theorem locate_join (t : FileTree) (base : String) {name : String} (h : IsName name) :
    t.locate (Path.join base name) = t.locate base ++ [name] := by
  rw [locate_eq, locate_eq, Path.components_join_name h, List.foldl_append]
  rfl

theorem Grows.locate {dirs files : Location → Prop} (h : Grows dirs files t t') (path : String) :
    t'.locate path = t.locate path := by
  rw [locate_eq, locate_eq, h.cwd]

theorem read_eq_ok_iff :
    t.read path = .ok data ↔ checkPath path = .ok () ∧ asksForDirectory path = false ∧
      t.reached path = .ok (t.locate path) ∧
      ∃ executable, t.at? (t.locate path) = some (.file data executable) := by
  have hlookup : t.read path = .ok data ↔
      ∃ loc executable, t.lookup path = .ok (loc, .file data executable) := by
    rw [read]
    split
    · rename_i hlookup
      simp [hlookup]
    · rename_i hlookup
      simp [hlookup]
    · rename_i hlookup
      simp [hlookup]
  rw [hlookup]
  constructor
  · rintro ⟨loc, executable, h⟩
    obtain ⟨hcheck, hreached, hat, hask⟩ := lookup_eq_ok_iff.mp h
    obtain rfl := locate_of_reached hreached
    exact ⟨hcheck, hask.resolve_left (by simp), hreached, executable, hat⟩
  · rintro ⟨hcheck, hask, hreached, executable, hat⟩
    exact ⟨_, executable, lookup_eq_ok_iff.mpr ⟨hcheck, hreached, hat, .inr hask⟩⟩

theorem Grows.read {dirs files : Location → Prop} (h : Grows dirs files t t')
    (hfiles : ¬ files (t.locate path)) (hread : t.read path = .ok data) :
    t'.read path = .ok data := by
  obtain ⟨hcheck, hask, hreached, executable, hat⟩ := read_eq_ok_iff.mp hread
  rw [read_eq_ok_iff, h.locate]
  exact ⟨hcheck, hask, h.reached hreached, executable, h.at?_file hfiles hat⟩

theorem fileNames_of_directory (h : t.lookup path = .ok (loc, .directory)) :
    t.fileNames path = .ok (t.filesOf loc) := by
  rw [fileNames, h]
  rfl

theorem Grows.fileNames {dirs files : Location → Prop} (h : Grows dirs files t t')
    (hfiles : ¬ files (t.locate path)) (hbelow : ∀ name, ¬ files (t.locate path ++ [name]))
    {names : List String} (hnames : t.fileNames path = .ok names) :
    t'.fileNames path = .ok names := by
  cases hlookup : t.lookup path with
  | error e =>
    rw [FileTree.fileNames, hlookup] at hnames
    cases hnames
  | ok found =>
    obtain ⟨loc, item⟩ := found
    obtain ⟨hcheck, hreached, hat, hask⟩ := lookup_eq_ok_iff.mp hlookup
    obtain rfl := locate_of_reached hreached
    cases item with
    | directory =>
      have hlookup' := lookup_eq_ok_iff.mpr
        ⟨hcheck, h.reached hreached, h.at?_directory hat, hask⟩
      rw [fileNames_of_directory hlookup] at hnames
      rw [fileNames_of_directory hlookup', h.filesOf hbelow, hnames]
    | file data executable =>
      have hlookup' := lookup_eq_ok_iff.mpr
        ⟨hcheck, h.reached hreached, h.at?_file hfiles hat, hask⟩
      rw [FileTree.fileNames, hlookup] at hnames
      rw [FileTree.fileNames, hlookup']
      exact hnames

/-! ## Directories on the way -/

/-- The place is passed on the way along components, at one that is a name. -/
def OnWay (t : FileTree) (cs : List Component) (loc : Location) : Prop :=
  ∃ front name, front ++ [.name name] <+: cs ∧
    loc = (front ++ [Component.name name]).foldl landing t.cwd

theorem OnWay.mono {cs cs' : List Component} (h : t.OnWay cs loc) (hcs : cs <+: cs') :
    t.OnWay cs' loc := by
  obtain ⟨front, name, hfront, hloc⟩ := h
  exact ⟨front, name, hfront.trans hcs, hloc⟩

theorem stepsOf_dropWhile_nil (parts : List (List Char)) :
    Path.stepsOf (parts.dropWhile (· == [])) = Path.stepsOf parts := by
  induction parts with
  | nil => rfl
  | cons part parts ih =>
    rw [List.dropWhile_cons]
    split_ifs with hnil
    · rw [ih, beq_iff_eq.mp hnil, Path.stepsOf_cons_idle Path.isIdle_nil]
    · rfl

theorem stepsOf_reverse (parts : List (List Char)) :
    Path.stepsOf parts.reverse = (Path.stepsOf parts).reverse := by
  simp [Path.stepsOf]

theorem steps_of_lastPart? {before : List (List Char)} {part : List Char}
    (h : lastPart? path = some (before, part)) :
    Path.steps path = Path.stepsOf (before ++ [part]) := by
  rw [lastPart?] at h
  split at h
  · cases h
  · rename_i last front hlast
    obtain ⟨rfl, rfl⟩ := Prod.mk.inj (Option.some.inj h)
    have hsteps := stepsOf_dropWhile_nil (Text.split '/' path.toList).reverse
    rw [hlast, stepsOf_reverse] at hsteps
    rw [← List.reverse_cons, stepsOf_reverse, hsteps, List.reverse_reverse]
    rfl

theorem follow_lead (t : FileTree) (path : String) (cs : List Component) :
    t.follow t.cwd (Path.lead path ++ cs) = t.follow (t.start path) cs := by
  rw [Path.lead, start]
  split_ifs <;> rfl

theorem asksForDirectory_eq_false {before : List (List Char)} {part : List Char}
    (h : lastPart? path = some (before, part)) (hname : isItemName part = true)
    (hcheck : checkPath path = .ok ()) (hslash : path.toList.getLast? ≠ some '/') :
    asksForDirectory path = false := by
  obtain ⟨hne, -⟩ := lastPart?_eq_some h
  have hidle : Path.isIdle part = false := by
    simp only [isItemName, Bool.and_eq_true, bne_iff_ne] at hname
    simp [Path.isIdle, hne, hname.1]
  have hempty : path.toList ≠ [] := by
    intro hempty
    obtain rfl : path = "" := by simpa using hempty
    cases hcheck
  obtain ⟨front, c, hpath⟩ := List.eq_nil_or_concat path.toList |>.resolve_left hempty
  rw [List.concat_eq_append] at hpath
  have hc : c ≠ '/' := by
    rintro rfl
    rw [hpath, List.getLast?_concat] at hslash
    exact hslash rfl
  -- behind its last slash the path has a part that is not empty
  obtain ⟨parts, last, hsplit⟩ := Text.split_append_of_notMem '/' front
  have hsplit := hsplit [c] (by simpa using Ne.symm hc)
  have hpart : part = last ++ [c] := by
    rw [lastPart?, hpath, hsplit, List.reverse_concat, List.dropWhile_cons, if_neg (by simp)] at h
    exact (Prod.mk.inj (Option.some.inj h)).2.symm
  rw [asksForDirectory, hpath, hsplit, List.getLast?_concat]
  rw [← hpart]
  exact hidle

theorem place_ok {part : List Char} (h : t.place path = .ok (dir, some part))
    (hname : isItemName part = true) :
    ∃ front, components path = front ++ [.name (String.ofList part)] ∧
      t.follow t.cwd front = .ok dir ∧ t.at? dir = some .directory ∧ checkPath path = .ok () ∧
      (path.toList.getLast? ≠ some '/' → asksForDirectory path = false) := by
  obtain ⟨-, hne, -⟩ := place_eq_ok h
  rw [place] at h
  split at h
  · cases h
  · rename_i hcheck
    split at h
    · cases h
    · rename_i before last hlast
      split at h
      · cases h
      · rename_i found hfound
        split_ifs at h with hdir
        obtain ⟨rfl, hpart⟩ := Prod.mk.inj (Except.ok.inj h)
        obtain rfl := Option.some.inj hpart
        have hask := asksForDirectory_eq_false hlast hname hcheck
        rw [stepsTo_eq_follow] at hfound
        simp only [isItemName, Bool.and_eq_true, bne_iff_ne] at hname
        have hidle : Path.isIdle last = false := by simp [Path.isIdle, hne, hname.1]
        refine ⟨Path.lead path ++ Path.stepsOf before, ?_, ?_, ?_, hcheck, hask⟩
        · rw [Path.components_eq, steps_of_lastPart? hlast, Path.stepsOf_append,
            Path.stepsOf_cons_of_not_idle hidle, Path.componentOf, if_neg hname.2,
            List.append_assoc]
          rfl
        · rw [follow_lead]
          exact hfound
        · rwa [hasDirectory, beq_iff_eq] at hdir

theorem follow_prefix {front : List Component} (hfront : front <+: components path)
    (h : t.follow t.cwd front = .ok loc) : loc = front.foldl landing t.cwd :=
  follow_ok (fun _ hc => isName_of_mem_components (hfront.subset hc)) h

theorem reached_put {dirs files : Location → Prop} {part : List Char}
    (hplace : t.place path = .ok (dir, some part)) (hname : isItemName part = true)
    (hshort : ¬ nameLimit < Text.utf8Length (String.ofList part))
    (hgrows : Grows dirs files t (t.put (dir ++ [String.ofList part]) item)) :
    (t.put (dir ++ [String.ofList part]) item).reached path = .ok (dir ++ [String.ofList part]) := by
  obtain ⟨front, hpath, hfollow, hat, -⟩ := place_ok hplace hname
  have hself : (t.put (dir ++ [String.ofList part]) item).at? (dir ++ [String.ofList part]) =
      some item := by
    rw [at?_put (by simp), if_pos rfl]
  have hhas : (t.put (dir ++ [String.ofList part]) item).hasDirectory dir = true := by
    rw [hasDirectory, hgrows.at?_directory hat, beq_self_eq_true]
  simp only [isItemName, Bool.and_eq_true, bne_iff_ne] at hname
  rw [reached_eq_follow, hpath, hgrows.cwd, follow_concat _ (hgrows.follow hfollow), along,
    stepTo, hhas, if_neg (by simp), String.toList_ofList, if_neg hname.2]
  simp only [if_neg hshort, hself, Option.isSome_some, if_true]

theorem makeDirectory_ok (h : t.makeDirectory path = .ok t') :
    ∃ loc, t' = t.put loc .directory ∧ t.OnWay (components path) loc ∧ loc ≠ [] ∧
      t.at? loc = none := by
  rw [makeDirectory] at h
  split at h
  · cases h
  · cases h
  · rename_i dir part hplace
    dsimp only at h
    split_ifs at h with hname hshort hnew
    obtain rfl := Except.ok.inj h
    obtain ⟨front, hpath, hfollow, -⟩ := place_ok hplace (by simpa using hname)
    refine ⟨dir ++ [String.ofList part], rfl, ?_, by simp, by simpa using hnew⟩
    refine ⟨front, String.ofList part, hpath ▸ List.prefix_refl _, ?_⟩
    rw [List.foldl_append, ← follow_prefix (hpath ▸ List.prefix_append _ _) hfollow]
    rfl

theorem makeDirectoriesFrom_grows (fuel : Nat) (path : String) :
    Grows (t.OnWay (components path)) (fun _ => False) t (t.makeDirectoriesFrom fuel path).1 := by
  induction fuel generalizing t path with
  | zero => exact .refl
  | succ fuel ih =>
    rw [makeDirectoriesFrom]
    split
    · exact .refl
    · split
      · rename_i made hmade
        obtain ⟨loc, rfl, hloc, hne, hnew⟩ := makeDirectory_ok hmade
        exact .directory .refl hloc hne hnew
      · split
        · exact .refl
        · rename_i parent hparent
          have hway : components parent <+: components path := by
            rw [Path.components_parent? hparent]
            exact List.dropLast_prefix _
          have hgrows := (ih (t := t) parent).mono (fun _ h => h.mono hway) fun _ h => h
          split
          · rename_i hfailed
            rwa [hfailed] at hgrows
          · rename_i hmade
            rw [hmade] at hgrows
            dsimp only at hgrows
            split
            · rename_i hmade'
              obtain ⟨loc, rfl, hloc, hne, hnew⟩ := makeDirectory_ok hmade'
              refine .directory hgrows ?_ hne hnew
              simpa only [OnWay, hgrows.cwd] using hloc
            · split_ifs <;> exact hgrows
      · split_ifs <;> exact .refl

theorem directoryOf_onWay (h : t.OnWay (components (directoryOf path)) loc) :
    t.OnWay (components path).dropLast loc := by
  have hdot : ∀ loc, ¬ t.OnWay (components ".") loc := by
    rintro loc ⟨front, name, hfront, -⟩
    have hmem := hfront.subset (List.mem_append_right front List.mem_cons_self)
    rw [show components "." = [.current] by decide] at hmem
    simp at hmem
  rw [directoryOf] at h
  split at h
  · rename_i parent hparent
    split_ifs at h
    · exact absurd h (hdot loc)
    · rwa [← Path.components_parent? hparent]
  · exact absurd h (hdot loc)

/-! ## Files -/

theorem persist_ok (h : t.persist path data = .ok t') :
    t' = t.put (t.locate path) (.file data false) ∧ t.locate path ≠ [] ∧
      t.at? (t.locate path) ≠ some .directory ∧ t'.read path = .ok data := by
  rw [persist] at h
  split at h
  · cases h
  · cases h
  · rename_i dir part hplace
    dsimp only at h
    split_ifs at h with hname hshort hslash hdir
    obtain rfl := Except.ok.inj h
    have hname : isItemName part = true := by simpa using hname
    obtain ⟨front, hpath, hfollow, hat, hcheck, hask⟩ := place_ok hplace hname
    have hloc : t.locate path = dir ++ [String.ofList part] := by
      rw [locate_eq, hpath, List.foldl_append,
        ← follow_prefix (hpath ▸ List.prefix_append _ _) hfollow]
      rfl
    have hnot : t.at? (dir ++ [String.ofList part]) ≠ some .directory := by
      simpa [hasDirectory] using hdir
    have hne : dir ++ [String.ofList part] ≠ [] := by simp
    have hgrows : Grows (fun _ => False) (· = dir ++ [String.ofList part]) t
        (t.put (dir ++ [String.ofList part]) (.file data false)) :=
      .file .refl rfl hne hnot
    rw [hloc]
    refine ⟨rfl, hne, hnot, read_eq_ok_iff.mpr ⟨hcheck, hask hslash, ?_, false, ?_⟩⟩
    · rw [hgrows.locate, hloc, reached_put hplace hname hshort hgrows]
    · rw [hgrows.locate, hloc, at?_put hne, if_pos rfl]

/-! ## Writing a file -/

theorem makeDirectories_grows (t : FileTree) (path : String) :
    Grows (t.OnWay (components path).dropLast) (fun _ => False) t
      (t.makeDirectories (directoryOf path)).1 :=
  (makeDirectoriesFrom_grows _ _).mono (fun _ h => directoryOf_onWay h) fun _ h => h

theorem store_error {e : FileError} (h : t.store path data = (t', .error e)) :
    Grows (t.OnWay (components path).dropLast) (fun _ => False) t t' := by
  have hgrows := makeDirectories_grows t path
  rw [store] at h
  split at h
  · rename_i hfailed
    rw [hfailed] at hgrows
    exact (Prod.mk.inj h).1 ▸ hgrows
  · rename_i hmade
    rw [hmade] at hgrows
    split at h
    · cases (Prod.mk.inj h).2
    · exact (Prod.mk.inj h).1 ▸ hgrows

theorem store_ok (h : t.store path data = (t', .ok ())) :
    Grows (t.OnWay (components path).dropLast) (· = t.locate path) t t' ∧
      t'.read path = .ok data := by
  have hgrows : Grows (t.OnWay (components path).dropLast) (· = t.locate path) t
      (t.makeDirectories (directoryOf path)).1 :=
    (makeDirectories_grows t path).mono (fun _ h => h) fun _ h => h.elim
  rw [store] at h
  split at h
  · cases (Prod.mk.inj h).2
  · rename_i t₁ hmade
    rw [hmade] at hgrows
    split at h
    · rename_i hpersist
      obtain rfl := (Prod.mk.inj h).1
      obtain ⟨rfl, hne, hnot, hread⟩ := persist_ok hpersist
      exact ⟨.file hgrows (hgrows.locate path) hne hnot, hread⟩
    · cases (Prod.mk.inj h).2

/-- **A write that fails** makes directories at most. -/
theorem update_error {e : FileError} (h : t.update path data = (t', .error e)) :
    Grows (t.OnWay (components path).dropLast) (fun _ => False) t t' := by
  rw [update] at h
  split at h
  · split_ifs at h
    · cases (Prod.mk.inj h).2
    · split at h
      · cases (Prod.mk.inj h).2
      · rename_i hstore
        exact store_error ((Prod.mk.inj h).1 ▸ hstore)
  · split at h
    · cases (Prod.mk.inj h).2
    · rename_i hstore
      exact store_error ((Prod.mk.inj h).1 ▸ hstore)
  · exact (Prod.mk.inj h).1 ▸ .refl

/-- **A write that succeeds** puts the one file, which holds its contents then, or leaves the tree as
it is. -/
theorem update_ok {effect : WriteEffect} (h : t.update path data = (t', .ok effect)) :
    Grows (t.OnWay (components path).dropLast) (· = t.locate path) t t' ∧
      t'.read path = .ok data ∧ (effect = .unchanged → t' = t) := by
  rw [update] at h
  split at h
  · rename_i hread
    split_ifs at h with hsame
    · obtain rfl := (Prod.mk.inj h).1
      exact ⟨.refl, hsame ▸ hread, fun _ => rfl⟩
    · split at h
      · rename_i hstore
        obtain ⟨hgrows, hwritten⟩ := store_ok ((Prod.mk.inj h).1 ▸ hstore)
        obtain rfl := Except.ok.inj (Prod.mk.inj h).2
        exact ⟨hgrows, hwritten, fun h => by cases h⟩
      · cases (Prod.mk.inj h).2
  · split at h
    · rename_i hstore
      obtain ⟨hgrows, hwritten⟩ := store_ok ((Prod.mk.inj h).1 ▸ hstore)
      obtain rfl := Except.ok.inj (Prod.mk.inj h).2
      exact ⟨hgrows, hwritten, fun h => by cases h⟩
    · cases (Prod.mk.inj h).2
  · cases (Prod.mk.inj h).2

theorem update_of_read (h : t.read path = .ok data) :
    t.update path data = (t, .ok .unchanged) := by
  rw [update, h]
  exact if_pos rfl

end BuildPlan.FileTree
