import BuildPlan.Proofs.Growth

/-!
# A write leaves one file or none

A file is written to the side and then moved to its place. Here the file to the side is part of the
tree, under the first name that is free, and what is done with it may fail at any step: it cannot
be made, it takes a part of the contents, it cannot be moved. Where nothing fails, the outcome is
that of writing at once (`storeAside_none`); where something does, the file to the side is gone again.
So a conditional write is careful in every case (`update_careful`): it changes the one file
or none, and makes directories that were missing on the way to it.
-/

namespace BuildPlan.FileTree

open BuildPlan.Path (components)

variable {t t' : FileTree} {path dir : String} {data : Bytes} {loc side : Location}
  {names : List String}

/-! ## Directories that were made -/

theorem isDirectory_of_makeDirectory (h : t.makeDirectory path = .ok t') :
    t'.isDirectory path = true := by
  rw [makeDirectory] at h
  split at h
  · cases h
  · cases h
  · rename_i dir part hplace
    dsimp only at h
    split_ifs at h with hname hshort hnew
    obtain rfl := Except.ok.inj h
    have hname : isItemName part = true := by simpa using hname
    have hne : dir ++ [String.ofList part] ≠ [] := by simp
    have hgrows : Grows (fun _ => True) (fun _ => False) t
        (t.put (dir ++ [String.ofList part]) .directory) :=
      .directory .refl trivial hne (by simpa using hnew)
    obtain ⟨-, -, -, -, hcheck, -⟩ := place_ok hplace hname
    refine isDirectory_eq_true_iff.mpr ⟨_, lookup_eq_ok_iff.mpr
      ⟨hcheck, reached_put hplace hname hshort hgrows, ?_, .inl rfl⟩⟩
    rw [at?_put hne, if_pos rfl]

theorem isDirectory_of_makeDirectoriesFrom {fuel : Nat} (hpath : path.isEmpty = false)
    (h : t.makeDirectoriesFrom fuel path = (t', .ok ())) : t'.isDirectory path = true := by
  cases fuel with
  | zero => cases (Prod.mk.inj h).2
  | succ fuel =>
    rw [makeDirectoriesFrom, hpath, if_neg Bool.false_ne_true] at h
    split at h
    · rename_i hmade
      exact isDirectory_of_makeDirectory ((Prod.mk.inj h).1 ▸ hmade)
    · split at h
      · cases (Prod.mk.inj h).2
      · split at h
        · cases (Prod.mk.inj h).2
        · split at h
          · rename_i hmade
            exact isDirectory_of_makeDirectory ((Prod.mk.inj h).1 ▸ hmade)
          · split_ifs at h with hdir
            · exact (Prod.mk.inj h).1 ▸ hdir
            · cases (Prod.mk.inj h).2
    · split_ifs at h with hdir
      · exact (Prod.mk.inj h).1 ▸ hdir
      · cases (Prod.mk.inj h).2

theorem isEmpty_directoryOf (path : String) : (directoryOf path).isEmpty = false := by
  rw [directoryOf]
  split
  · split_ifs with hparent
    · rfl
    · simpa using hparent
  · rfl

/-! ## A file to the side -/

def unlink (t : FileTree) (loc : Location) : FileTree :=
  { t with items := t.items.filter (·.1 != loc) }

theorem unlink_put (item : Item) : (t.put loc item).unlink loc = t.unlink loc := by
  simp [unlink, put, List.filter_filter]

theorem unlink_of_at?_eq_none (hne : loc ≠ []) (h : t.at? loc = none) : t.unlink loc = t := by
  cases loc with
  | nil => exact absurd rfl hne
  | cons name rest =>
    rw [at?, Option.map_eq_none_iff, List.find?_eq_none] at h
    have hitems : t.items.filter (·.1 != name :: rest) = t.items := by
      rw [List.filter_eq_self]
      intro item hitem
      simpa using h item hitem
    rw [unlink, hitems]

/-- What can fail about a file to the side. -/
inductive Trouble where
  /-- It cannot be made. -/
  | making (reason : FileError)
  /-- It takes no more than so many bytes. -/
  | filling (count : Nat) (reason : FileError)
  /-- It cannot be moved. -/
  | moving (reason : FileError)
  deriving DecidableEq, Repr

/-- Where a file to the side is made: in a directory, under the first name at which nothing
stands. -/
def sidePlace (t : FileTree) (dir : String) (names : List String) : Except FileError Location :=
  match t.lookup dir with
  | .error e => .error e
  | .ok (_, .file _ _) => .error .notDirectory
  | .ok (loc, .directory) =>
    match names.find? fun name => (t.at? (loc ++ [name])).isNone with
    | none => .error .alreadyThere
    | some name => .ok (loc ++ [name])

theorem sidePlace_ok (h : t.sidePlace dir names = .ok side) : side ≠ [] ∧ t.at? side = none := by
  rw [sidePlace] at h
  split at h
  · cases h
  · cases h
  · split at h
    · cases h
    · rename_i hfind
      obtain rfl := Except.ok.inj h
      exact ⟨by simp, by simpa using List.find?_some hfind⟩

theorem exists_sidePlace (hdir : t.isDirectory dir = true)
    (hfree : ∃ name ∈ names, t.at? (t.locate dir ++ [name]) = none) :
    ∃ side, t.sidePlace dir names = .ok side := by
  obtain ⟨loc, hlookup⟩ := isDirectory_eq_true_iff.mp hdir
  obtain ⟨-, hreached, -⟩ := lookup_eq_ok_iff.mp hlookup
  obtain rfl := locate_of_reached hreached
  rw [sidePlace, hlookup]
  dsimp only
  split
  · rename_i hnone
    obtain ⟨name, hname, hnew⟩ := hfree
    exact absurd hnew (by simpa using List.find?_eq_none.mp hnone name hname)
  · exact ⟨_, rfl⟩

/-- Makes a file to the side and fills it. What could be written is there on failure too. -/
def fill (t : FileTree) (side : Location) (data : Bytes) :
    Option Trouble → FileTree × Except FileError Unit
  | some (.making reason) => (t, .error reason)
  | some (.filling count reason) => (t.put side (.file (data.take count) false), .error reason)
  | _ => (t.put side (.file data false), .ok ())

def moveTo (t : FileTree) (side : Location) (path : String) :
    Option Trouble → Except FileError FileTree
  | some (.moving reason) => .error reason
  | _ =>
    match t.at? side with
    | some (.file data _) => (t.unlink side).persist path data
    | _ => .error .notFound

theorem moveTo_put (hne : side ≠ []) (hnew : t.at? side = none) :
    (t.put side (.file data false)).moveTo side path none = t.persist path data := by
  have hside : (t.put side (.file data false)).at? side = some (.file data false) := by
    rw [at?_put hne, if_pos rfl]
  rw [moveTo, hside, unlink_put, unlink_of_at?_eq_none hne hnew]
  exact fun _ h => by cases h

/-- Writes a file to the side and moves it to its place. Where either fails, it is taken away. -/
def storeFrom (t : FileTree) (side : Location) (trouble : Option Trouble) (path : String)
    (data : Bytes) : FileTree × Except FileError Unit :=
  match t.fill side data trouble with
  | (t, .error e) => (t.unlink side, .error e)
  | (t, .ok ()) =>
    match t.moveTo side path trouble with
    | .ok t => (t, .ok ())
    | .error e => (t.unlink side, .error (.persist e))

theorem storeFrom_none (hne : side ≠ []) (hnew : t.at? side = none) :
    t.storeFrom side none path data =
      match t.persist path data with
      | .ok t => (t, .ok ())
      | .error e => (t, .error (.persist e)) := by
  simp only [storeFrom, fill, moveTo_put hne hnew, unlink_put, unlink_of_at?_eq_none hne hnew]

theorem storeFrom_some (hne : side ≠ []) (hnew : t.at? side = none) (trouble : Trouble) :
    ∃ e, t.storeFrom side (some trouble) path data = (t, .error e) := by
  have hgone := unlink_of_at?_eq_none hne hnew
  cases trouble with
  | making reason => exact ⟨reason, by simp only [storeFrom, fill, hgone]⟩
  | filling count reason => exact ⟨reason, by simp only [storeFrom, fill, unlink_put, hgone]⟩
  | moving reason => exact ⟨_, by simp only [storeFrom, fill, moveTo, unlink_put, hgone]; rfl⟩

/-- Writes a file to the side, under one of the names, and moves it to its place. -/
def storeAside (names : List String) (trouble : Option Trouble) (t : FileTree) (path : String)
    (data : Bytes) : FileTree × Except FileError Unit :=
  match t.makeDirectories (directoryOf path) with
  | (t, .error e) => (t, .error e)
  | (t, .ok ()) =>
    match t.sidePlace (directoryOf path) names with
    | .error e => (t, .error e)
    | .ok side => t.storeFrom side trouble path data

def HasFree (t : FileTree) (path : String) (names : List String) : Prop :=
  ∃ name ∈ names, (t.makeDirectories (directoryOf path)).1.at?
    (t.locate (directoryOf path) ++ [name]) = none

theorem storeAside_none (h : t.HasFree path names) (data : Bytes) :
    t.storeAside names none path data = t.store path data := by
  have hgrows := makeDirectories_grows t path
  rw [HasFree] at h
  rw [storeAside, store]
  cases hmade : t.makeDirectories (directoryOf path) with
  | mk t₁ made =>
    rw [hmade] at h hgrows
    cases made with
    | error e => rfl
    | ok _ =>
      rw [← hgrows.locate] at h
      have hdir := isDirectory_of_makeDirectoriesFrom (isEmpty_directoryOf path) hmade
      obtain ⟨side, hside⟩ := exists_sidePlace hdir h
      obtain ⟨hne, hnew⟩ := sidePlace_ok hside
      dsimp only
      rw [hside]
      exact storeFrom_none hne hnew

/-- In any case it comes to the same, or it fails with nothing but the directories made. -/
theorem storeAside_cases (names : List String) (trouble : Option Trouble) (t : FileTree)
    (path : String) (data : Bytes) :
    t.storeAside names trouble path data = t.store path data ∨
      ∃ e, t.storeAside names trouble path data =
        ((t.makeDirectories (directoryOf path)).1, .error e) := by
  rw [storeAside, store]
  cases t.makeDirectories (directoryOf path) with
  | mk t₁ made =>
    cases made with
    | error e => exact .inl rfl
    | ok _ =>
      cases hside : t₁.sidePlace (directoryOf path) names with
      | error e => exact .inr ⟨e, by simp only [hside]⟩
      | ok side =>
        obtain ⟨hne, hnew⟩ := sidePlace_ok hside
        cases trouble with
        | none =>
          left
          dsimp only
          rw [hside]
          exact storeFrom_none hne hnew
        | some trouble =>
          obtain ⟨e, he⟩ : ∃ e, t₁.storeFrom side (some trouble) path data = (t₁, .error e) :=
            storeFrom_some hne hnew trouble
          exact .inr ⟨e, by simp only [hside, he]⟩

/-! ## Conditional writes -/

/-- What a way of storing a file has to keep to: the file is there in the end, or there is an error
and nothing but directories on the way was made. -/
structure Stores (t : FileTree) (path : String) (data : Bytes)
    (result : FileTree × Except FileError Unit) : Prop where
  ok : result.2 = .ok () → result.1.read path = .ok data ∧
    Grows (t.OnWay (components path).dropLast) (· = t.locate path) t result.1
  error : ∀ e, result.2 = .error e →
    Grows (t.OnWay (components path).dropLast) (fun _ => False) t result.1

theorem stores_store (t : FileTree) (path : String) (data : Bytes) :
    Stores t path data (t.store path data) where
  ok h := (store_ok (Prod.ext rfl h)).symm
  error _ h := store_error (Prod.ext rfl h)

theorem stores_storeAside (names : List String) (trouble : Option Trouble) (t : FileTree)
    (path : String) (data : Bytes) : Stores t path data (t.storeAside names trouble path data) := by
  rcases storeAside_cases names trouble t path data with hsame | ⟨e, herror⟩
  · rw [hsame]
    exact stores_store t path data
  · rw [herror]
    exact ⟨by simp, fun _ _ => makeDirectories_grows t path⟩

/-- What a conditional write reports of a file that had to be stored. -/
def asWritten : FileTree × Except FileError Unit → FileTree × Except FileError WriteEffect
  | (t, .ok ()) => (t, .ok .written)
  | (t, .error e) => (t, .error e)

/-- Stores a file in the given way unless it holds the contents already. -/
def updateWith (store : FileTree → String → Bytes → FileTree × Except FileError Unit)
    (t : FileTree) (path : String) (data : Bytes) : FileTree × Except FileError WriteEffect :=
  match t.read path with
  | .ok old => if old = data then (t, .ok .unchanged) else asWritten (store t path data)
  | .error .notFound => asWritten (store t path data)
  | .error e => (t, .error e)

theorem update_eq_updateWith (t : FileTree) (path : String) (data : Bytes) :
    t.update path data = t.updateWith store path data :=
  rfl

def updateAside (names : List String) (trouble : Option Trouble) (t : FileTree) (path : String)
    (data : Bytes) : FileTree × Except FileError WriteEffect :=
  t.updateWith (storeAside names trouble) path data

abbrev Writer := FileTree → String → Bytes → FileTree × Except FileError WriteEffect

/-- A file that was written is there, one that could not be is as it was, and nothing but
directories on the way was made. -/
structure Writer.Sound (write : Writer) : Prop where
  ok : ∀ {t t' path data effect}, write t path data = (t', .ok effect) →
    Grows (t.OnWay (components path).dropLast) (· = t.locate path) t t' ∧ t'.read path = .ok data
  error : ∀ {t t' path data e}, write t path data = (t', .error e) →
    Grows (t.OnWay (components path).dropLast) (fun _ => False) t t'

theorem sound_update : Writer.Sound update where
  ok h := ⟨(update_ok h).1, (update_ok h).2.1⟩
  error := update_error

theorem sound_updateWith (store : FileTree → String → Bytes → FileTree × Except FileError Unit)
    (h : ∀ t path data, Stores t path data (store t path data)) :
    Writer.Sound fun t path data => t.updateWith store path data := by
  have hok : ∀ {result : FileTree × Except FileError Unit} {t' effect},
      asWritten result = (t', .ok effect) → result = (t', .ok ()) := by
    rintro ⟨t₁, _ | _⟩ t' effect h
    · cases (Prod.mk.inj h).2
    · rw [(Prod.mk.inj h).1]
  have herror : ∀ {result : FileTree × Except FileError Unit} {t' e},
      asWritten result = (t', .error e) → result = (t', .error e) := by
    rintro ⟨t₁, _ | _⟩ t' e h
    · rw [(Prod.mk.inj h).1, Except.error.inj (Prod.mk.inj h).2]
    · cases (Prod.mk.inj h).2
  constructor
  · intro t t' path data effect hwrite
    have hstored : store t path data = (t', .ok ()) →
        Grows (t.OnWay (components path).dropLast) (· = t.locate path) t t' ∧
          t'.read path = .ok data := by
      intro hstore
      have hdone := (h t path data).ok (by rw [hstore])
      rw [hstore] at hdone
      exact ⟨hdone.2, hdone.1⟩
    dsimp only [updateWith] at hwrite
    split at hwrite
    · rename_i old hread
      split_ifs at hwrite with hsame
      · obtain rfl := (Prod.mk.inj hwrite).1
        exact ⟨.refl, hsame ▸ hread⟩
      · exact hstored (hok hwrite)
    · exact hstored (hok hwrite)
    · cases (Prod.mk.inj hwrite).2
  · intro t t' path data e hwrite
    have hstored : store t path data = (t', .error e) →
        Grows (t.OnWay (components path).dropLast) (fun _ => False) t t' := by
      intro hstore
      have hfailed := (h t path data).error e (by rw [hstore])
      rwa [hstore] at hfailed
    dsimp only [updateWith] at hwrite
    split at hwrite
    · split_ifs at hwrite
      · cases (Prod.mk.inj hwrite).2
      · exact hstored (herror hwrite)
    · exact hstored (herror hwrite)
    · rw [(Prod.mk.inj hwrite).1]
      exact .refl

/-- Writes by way of files to the side; what happens to one may depend on the tree and the path. -/
def writerAside (names : FileTree → String → List String)
    (trouble : FileTree → String → Option Trouble) : Writer := fun t path =>
  t.updateAside (names t path) (trouble t path) path

theorem sound_writerAside (names : FileTree → String → List String)
    (trouble : FileTree → String → Option Trouble) : (writerAside names trouble).Sound :=
  sound_updateWith (fun t path => t.storeAside (names t path) (trouble t path) path)
    fun t path data => stores_storeAside (names t path) (trouble t path) t path data

/-- But for the places excepted, each holds what it held, or a directory that was missing on
the way to the path. -/
structure Keeps (t t' : FileTree) (path : String) (but : Location → Prop) : Prop where
  cwd : t'.cwd = t.cwd
  place : ∀ loc, ¬ but loc → t'.at? loc = t.at? loc ∨
    (t.OnWay (components path).dropLast loc ∧ t.at? loc = none ∧ t'.at? loc = some .directory)
  files : ∀ loc, ¬ but loc → ∀ data executable,
    t'.at? loc = some (.file data executable) ↔ t.at? loc = some (.file data executable)

theorem Grows.keeps {files : Location → Prop}
    (h : Grows (t.OnWay (components path).dropLast) files t t') : Keeps t t' path files where
  cwd := h.cwd
  place loc hloc := by
    rcases h.at?_cases loc with hsame | hmade | ⟨hput, -⟩
    · exact .inl hsame
    · exact .inr hmade
    · exact absurd hput hloc
  files loc hloc := h.file_iff hloc

structure Careful (t : FileTree) (path : String) (data : Bytes)
    (result : FileTree × Except FileError WriteEffect) : Prop where
  /-- It reports no change just where the file holds the contents. -/
  unchanged_iff : result.2 = .ok .unchanged ↔ t.read path = .ok data
  untouched : result.2 = .ok .unchanged → result.1 = t
  /-- Written, the file holds the contents, and nothing else has changed but for directories that
  were missing. -/
  written : result.2 = .ok .written →
    result.1.read path = .ok data ∧ Keeps t result.1 path (· = t.locate path)
  /-- On an error each file is as it was, and there is no other. -/
  failed : ∀ e, result.2 = .error e → Keeps t result.1 path fun _ => False
  /-- Once it has succeeded, there is nothing left to write. -/
  again : ∀ effect, result.2 = .ok effect →
    result.1.update path data = (result.1, .ok .unchanged)

theorem careful_asWritten {result : FileTree × Except FileError Unit}
    (h : Stores t path data result) (hnew : t.read path ≠ .ok data) :
    Careful t path data (asWritten result) := by
  obtain ⟨t', outcome⟩ := result
  cases outcome with
  | error e =>
    exact {
      unchanged_iff := iff_of_false (by simp [asWritten]) hnew
      untouched := by simp [asWritten]
      written := by simp [asWritten]
      failed := fun _ _ => (h.error e rfl).keeps
      again := by simp [asWritten] }
  | ok _ =>
    obtain ⟨hread, hgrows⟩ := h.ok rfl
    exact {
      unchanged_iff := iff_of_false (by simp [asWritten]) hnew
      untouched := by simp [asWritten]
      written := fun _ => ⟨hread, hgrows.keeps⟩
      failed := by simp [asWritten]
      again := fun _ _ => update_of_read hread }

theorem careful_updateWith {store : FileTree → String → Bytes → FileTree × Except FileError Unit}
    (h : Stores t path data (store t path data)) :
    Careful t path data (t.updateWith store path data) := by
  rw [updateWith]
  split
  · rename_i old hread
    split_ifs with hsame
    · rw [hsame] at hread
      exact {
        unchanged_iff := iff_of_true rfl hread
        untouched := fun _ => rfl
        written := by simp
        failed := by simp
        again := fun _ _ => update_of_read hread }
    · exact careful_asWritten h (by simpa [hread] using hsame)
  · rename_i hread
    exact careful_asWritten h (by simp [hread])
  · rename_i e _ hread
    exact {
      unchanged_iff := iff_of_false (by simp) (by simp [hread])
      untouched := by simp
      written := by simp
      failed := fun _ _ => Grows.refl.keeps
      again := by simp }

/-- **A conditional write is careful**, and it is so as well when the file is written to the side
first, whatever happens to it there; without trouble the outcome is the same. -/
theorem update_careful (t : FileTree) (path : String) (data : Bytes) :
    Careful t path data (t.update path data) ∧
    ∀ names trouble,
      Careful t path data (t.updateAside names trouble path data) ∧
      (trouble = none → t.HasFree path names →
        t.updateAside names trouble path data = t.update path data) := by
  refine ⟨careful_updateWith (stores_store t path data), fun names trouble =>
    ⟨careful_updateWith (stores_storeAside names trouble t path data), ?_⟩⟩
  rintro rfl hfree
  rw [update_eq_updateWith, updateAside, updateWith, updateWith, storeAside_none hfree]

namespace Sample

def oneFile : FileTree :=
  ⟨[(["p"], .directory), (["p", "a.c"], .file [1] true)], ["p"]⟩

/-- Two directories are missing for the first file; the second one is there, and its name is taken
when a name is chosen for the file to the side, which then takes one byte only. -/
theorem update_careful_oneFile :
    (oneFile.update "out/x/b.c" [7, 8]).1.read "out/x/b.c" = .ok [7, 8] ∧
    oneFile.updateAside ["a.c", ".tmp-0"] none "a.c" [7, 8] = oneFile.update "a.c" [7, 8] ∧
    (oneFile.updateAside ["a.c", ".tmp-0"] (some (.filling 1 .noTree)) "a.c" [7, 8]).1.at?
      ["p", "a.c"] = some (.file [1] true) := by
  refine ⟨?_, ?_, ?_⟩
  · exact ((update_careful oneFile "out/x/b.c" [7, 8]).1.written (by decide)).1
  · exact ((update_careful oneFile "a.c" [7, 8]).2 _ none).2 rfl ⟨".tmp-0", by decide, by decide⟩
  · have hcareful := ((update_careful oneFile "a.c" [7, 8]).2 ["a.c", ".tmp-0"]
      (some (.filling 1 .noTree))).1
    exact ((hcareful.failed .noTree (by decide)).files _ id _ _).mpr (by decide)

end Sample

end BuildPlan.FileTree
