import BuildPlan.Proofs.Packing
import BuildPlan.Proofs.Result

/-!
# Packing steps read before they write

A packing step reads all of its inputs, in order, and writes only when it has them all. So a step
that fails over an input leaves the tree as it is (`libraryFiles_eq_error_iff` and
`packHeaders_eq_error_iff` say which input that is); and the library that is written is made of what
the tree held before, even where a file of it stands in the place of an input
(`inputs_read_first`).
-/

namespace BuildPlan

open BuildPlan.Path (IsName lastPart)

/-! ## Where files stand whose names end alike -/

namespace Path

theorem isAbsolute_append {s tail : String} (htail : isAbsolute tail = false) :
    isAbsolute (s ++ tail) = isAbsolute s := by
  rw [isAbsolute] at htail
  rw [isAbsolute, isAbsolute, String.toList_append, List.head?_append]
  cases hs : s.toList with
  | nil => simpa using htail
  | cons c cs => simp

theorem join_append (base rel : String) {tail : String} (htail : isAbsolute tail = false) :
    join base (rel ++ tail) = join base rel ++ tail := by
  rw [join, join, isAbsolute_append htail]
  split_ifs <;> simp [String.append_assoc]

end Path

namespace FileTree

theorem exists_locate_append (t : FileTree) (path : String) {tail : String}
    (htail : '/' ∉ tail.toList)
    (hname : IsName (String.ofList (lastPart path ++ tail.toList))) :
    ∃ dir, t.locate (path ++ tail) = dir ++ [String.ofList (lastPart path ++ tail.toList)] := by
  have hlast := Path.lastPart_append path htail
  have hfile : Path.fileName? (path ++ tail) =
      some (String.ofList (lastPart path ++ tail.toList)) := by
    rw [← hlast]
    apply Path.fileName?_eq_lastPart
    rwa [hlast]
  rw [Path.fileName?] at hfile
  split at hfile
  · rename_i s hs
    obtain rfl := Option.some.inj hfile
    obtain ⟨front, hfront⟩ := List.getLast?_eq_some_iff.mp hs
    exact ⟨front.foldl landing t.cwd, by rw [locate_eq, hfront, List.foldl_concat, landing]⟩
  · cases hfile

end FileTree

namespace Pack

variable {t t' : FileTree}

/-! ## What a step reads -/

/-- The text at a path; empty where none can be read. -/
def textOf (t : FileTree) (path : String) : String :=
  match t.readText path with
  | .ok text => text
  | .error _ => ""

def IsReadable (t : FileTree) (path : String) : Prop :=
  t.readText path = .ok (textOf t path)

instance (t : FileTree) (path : String) : Decidable (IsReadable t path) :=
  inferInstanceAs (Decidable (_ = _))

theorem textAt_eq_ok_iff {path text : String} :
    textAt t path = .ok text ↔ IsReadable t path ∧ text = textOf t path := by
  rw [textAt, IsReadable, textOf]
  cases t.readText path with
  | error e => simp
  | ok s => simp [eq_comm]

theorem textAt_eq_error_iff {path : String} {e : PackingError} :
    textAt t path = .error e ↔ ∃ reason, t.readText path = .error reason ∧
      e = .unreadable path reason := by
  rw [textAt]
  cases t.readText path with
  | error reason => simp [eq_comm]
  | ok s => simp

theorem textAt_of_readable {path : String} (h : IsReadable t path) :
    textAt t path = .ok (textOf t path) :=
  textAt_eq_ok_iff.mpr ⟨h, rfl⟩

def memberOf (t : FileTree) (path : String) : LibraryMember :=
  ⟨path, textOf t path⟩

theorem readMember_eq (t : FileTree) (path : String) :
    readMember t path = (textAt t path).map fun _ => memberOf t path := by
  rw [readMember]
  cases htext : textAt t path with
  | error e => rfl
  | ok text =>
    obtain ⟨-, rfl⟩ := textAt_eq_ok_iff.mp htext
    rfl

theorem mapM_readMember (t : FileTree) (paths : List String) :
    paths.mapM (readMember t) =
      (paths.mapM (textAt t)).map fun _ => paths.map (memberOf t) := by
  induction paths with
  | nil => rfl
  | cons path paths ih =>
    rw [List.mapM_cons, List.mapM_cons, ih, readMember_eq]
    cases textAt t path with
    | error e => rfl
    | ok text => cases paths.mapM (textAt t) <;> rfl

end Pack

/-! ## The library -/

namespace Pack.LibraryOrder

/-- What is read for the library, in order. -/
def reads (o : LibraryOrder) : List String :=
  o.inputs ++ [o.win, o.sysv, o.header, o.license]

/-- Where the source is written, the header and the license. -/
def sourcePath (o : LibraryOrder) : String :=
  Path.join o.dir (o.name ++ ".c")

def headerPath (o : LibraryOrder) : String :=
  Path.join o.dir (o.name ++ ".h")

def licensePath (o : LibraryOrder) : String :=
  Path.join o.dir "LICENSE"

def outputs (o : LibraryOrder) : List String :=
  [o.sourcePath, o.headerPath, o.licensePath]

/-- The source of the library as the tree has its members. -/
def sourceFrom (o : LibraryOrder) (t : FileTree) : String :=
  Library.source (o.inputs.map (memberOf t)) o.switch (memberOf t o.win) (memberOf t o.sysv)

/-- The files of the library as the tree has its members. -/
def filesFrom (o : LibraryOrder) (t : FileTree) : List (String × String) :=
  [(o.sourcePath, o.sourceFrom t), (o.headerPath, textOf t o.header),
    (o.licensePath, textOf t o.license)]

end Pack.LibraryOrder

namespace Pack

open LibraryOrder (outputs)

variable {t t' : FileTree} {o : LibraryOrder}

theorem source_mem_filesFrom (t : FileTree) (o : LibraryOrder) :
    (o.sourcePath, o.sourceFrom t) ∈ o.filesFrom t :=
  .head _

theorem header_mem_filesFrom (t : FileTree) (o : LibraryOrder) :
    (o.headerPath, textOf t o.header) ∈ o.filesFrom t :=
  .tail _ (.head _)

theorem license_mem_filesFrom (t : FileTree) (o : LibraryOrder) :
    (o.licensePath, textOf t o.license) ∈ o.filesFrom t :=
  .tail _ (.tail _ (.head _))

theorem libraryFiles_eq (t : FileTree) (o : LibraryOrder) :
    libraryFiles t o = (o.reads.mapM (textAt t)).map fun _ => o.filesFrom t := by
  rw [libraryFiles, mapM_readMember, LibraryOrder.reads, List.mapM_append, readMember_eq,
    readMember_eq]
  simp only [List.mapM_cons, List.mapM_nil]
  cases o.inputs.mapM (textAt t) with
  | error e => rfl
  | ok texts =>
    cases textAt t o.win with
    | error e => rfl
    | ok win =>
      cases textAt t o.sysv with
      | error e => rfl
      | ok sysv =>
        cases hheader : textAt t o.header with
        | error e => rfl
        | ok header =>
          cases hlicense : textAt t o.license with
          | error e => rfl
          | ok license =>
            obtain ⟨-, rfl⟩ := textAt_eq_ok_iff.mp hheader
            obtain ⟨-, rfl⟩ := textAt_eq_ok_iff.mp hlicense
            rfl

theorem libraryFiles_eq_ok_iff {files : List (String × String)} :
    libraryFiles t o = .ok files ↔
      (∀ path ∈ o.reads, IsReadable t path) ∧ files = o.filesFrom t := by
  rw [libraryFiles_eq]
  constructor
  · intro h
    cases htexts : o.reads.mapM (textAt t) with
    | error e =>
      rw [htexts] at h
      cases h
    | ok texts =>
      rw [htexts] at h
      refine ⟨fun path hpath => ?_, (Except.ok.inj h).symm⟩
      obtain ⟨text, -, htext⟩ := exists_mem_of_forall₂ (mapM_eq_ok_iff.mp htexts) hpath
      exact (textAt_eq_ok_iff.mp htext).1
  · rintro ⟨hreads, rfl⟩
    have htexts : o.reads.mapM (textAt t) = .ok (o.reads.map (textOf t)) := by
      rw [mapM_eq_ok_iff, List.forall₂_map_right_iff, List.forall₂_same]
      exact fun path hpath => textAt_of_readable (hreads path hpath)
    rw [htexts]
    rfl

/-- **The library fails over the first of its inputs that cannot be read.** -/
theorem libraryFiles_eq_error_iff {e : PackingError} :
    libraryFiles t o = .error e ↔ ∃ before path behind reason, o.reads = before ++ path :: behind ∧
      (∀ other ∈ before, IsReadable t other) ∧ t.readText path = .error reason ∧
      e = .unreadable path reason := by
  have hmap : libraryFiles t o = .error e ↔ o.reads.mapM (textAt t) = .error e := by
    rw [libraryFiles_eq]
    cases o.reads.mapM (textAt t) <;> simp [Except.map]
  rw [hmap, mapM_eq_error_iff]
  constructor
  · rintro ⟨before, path, behind, hreads, hbefore, herror⟩
    obtain ⟨reason, hreason, rfl⟩ := textAt_eq_error_iff.mp herror
    refine ⟨before, path, behind, reason, hreads, fun other hother => ?_, hreason, rfl⟩
    obtain ⟨text, htext⟩ := hbefore other hother
    exact (textAt_eq_ok_iff.mp htext).1
  · rintro ⟨before, path, behind, reason, hreads, hbefore, hreason, rfl⟩
    refine ⟨before, path, behind, hreads, fun other hother => ?_,
      textAt_eq_error_iff.mpr ⟨reason, hreason, rfl⟩⟩
    exact ⟨_, textAt_of_readable (hbefore other hother)⟩

/-! ### Its three places -/

theorem isName_extended {part : List Char} {letter : Char} (hpart : '/' ∉ part)
    (hletter : letter ≠ '/') (hdot : letter ≠ '.') :
    IsName (String.ofList (part ++ ['.', letter])) := by
  have hslash : '/' ∉ part ++ ['.', letter] := by
    simp [hpart, Ne.symm hletter]
  have hlast : ∀ cs : List Char, part ++ ['.', letter] = cs → cs.getLast? = some letter := by
    rintro _ rfl
    simp
  refine ⟨?_, ?_, by simpa using hslash⟩
  · rw [String.toList_ofList, Path.isIdle, Bool.or_eq_false_iff, beq_eq_false_iff_ne,
      beq_eq_false_iff_ne]
    refine ⟨by simp, fun hidle => ?_⟩
    have hlength := congrArg List.length hidle
    simp at hlength
  · rw [String.toList_ofList]
    intro hup
    have hsame := hlast _ hup
    simp only [List.getLast?_cons_cons, List.getLast?_singleton, Option.some.injEq] at hsame
    exact hdot hsame.symm

/-- Source and header end with different letters, and so does the license. -/
theorem nodup_outputPlaces (t : FileTree) (o : LibraryOrder) : (o.outputs.map t.locate).Nodup := by
  have hnamed : ∀ letter : Char, letter ≠ '/' → letter ≠ '.' →
      ∃ dir : Location, ∃ name : String, name.toList.getLast? = some letter ∧
        t.locate (Path.join o.dir (o.name ++ String.ofList ['.', letter])) = dir ++ [name] := by
    intro letter hslash hdot
    have htail : Path.isAbsolute (String.ofList ['.', letter]) = false := by
      simp [Path.isAbsolute]
    have hname := isName_extended (Path.notMem_lastPart (Path.join o.dir o.name)) hslash hdot
    rw [← String.toList_ofList (l := ['.', letter])] at hname
    rw [Path.join_append o.dir o.name htail]
    obtain ⟨dir, hdir⟩ :=
      FileTree.exists_locate_append t (Path.join o.dir o.name) (by simp [Ne.symm hslash]) hname
    exact ⟨dir, _, by simp, hdir⟩
  obtain ⟨dir, source, hsource, hsourcePlace⟩ := hnamed 'c' (by decide) (by decide)
  obtain ⟨dir', header, hheader, hheaderPlace⟩ := hnamed 'h' (by decide) (by decide)
  have hlicense : t.locate o.licensePath = t.locate o.dir ++ ["LICENSE"] :=
    FileTree.locate_join t o.dir (by decide)
  have hapart : ∀ {front front' : Location} {name name' : String},
      name.toList.getLast? ≠ name'.toList.getLast? → front ++ [name] ≠ front' ++ [name'] := by
    intro front front' name name' hne hsame
    obtain ⟨-, hlast⟩ := List.append_inj' hsame rfl
    exact hne (by rw [(List.cons.inj hlast).1])
  have hplaces : o.outputs.map t.locate =
      [dir ++ [source], dir' ++ [header], t.locate o.dir ++ ["LICENSE"]] := by
    rw [outputs, List.map_cons, List.map_cons, List.map_cons, List.map_nil, hlicense,
      ← hsourcePlace, ← hheaderPlace]
    rfl
  rw [hplaces]
  simp only [List.nodup_cons, List.mem_cons, List.not_mem_nil, or_false, not_or, not_false_iff,
    List.nodup_nil, and_true]
  refine ⟨⟨hapart ?_, hapart ?_⟩, hapart ?_⟩
  · simp [hsource, hheader]
  · rw [hsource]
    decide
  · rw [hheader]
    decide

/-! ## Writing -/

/-- **Files that are all written** are the only ones that change, and each holds its text then, as
long as they stand at different places. -/
theorem writeFiles_ok {files : List (String × String)} (h : writeFiles t files = (t', .ok ()))
    (hnodup : (files.map fun f => t.locate f.1).Nodup) :
    FileTree.Grows (fun _ => True) (fun loc => ∃ f ∈ files, loc = t.locate f.1) t t' ∧
      ∀ f ∈ files, t'.read f.1 = .ok (Text.toUtf8 f.2) := by
  induction files generalizing t with
  | nil =>
    obtain ⟨rfl, -⟩ := Prod.mk.inj h
    exact ⟨.refl, by simp⟩
  | cons file files ih =>
    obtain ⟨path, text⟩ := file
    rw [writeFiles] at h
    split at h
    · rename_i t₁ effect hwritten
      obtain ⟨hfirst, hread, -⟩ := FileTree.update_ok hwritten
      obtain ⟨hnot, hnodup⟩ := List.nodup_cons.mp hnodup
      have hplaces : (files.map fun f => t₁.locate f.1) = files.map fun f => t.locate f.1 := by
        simp only [hfirst.locate]
      obtain ⟨hlater, hreads⟩ := ih h (hplaces ▸ hnodup)
      refine ⟨(hfirst.mono (fun _ _ => trivial) fun loc hloc => ?_).trans
        (hlater.mono (fun _ h => h) ?_), fun f hf => ?_⟩
      · exact ⟨_, List.mem_cons_self, hloc⟩
      · rintro loc ⟨f, hf, rfl⟩
        exact ⟨f, List.mem_cons_of_mem _ hf, hfirst.locate f.1⟩
      · rcases List.mem_cons.mp hf with rfl | hf
        · -- no later file is put where this one is
          apply hlater.read _ hread
          rintro ⟨other, hother, hsame⟩
          rw [hfirst.locate, hfirst.locate] at hsame
          exact hnot (List.mem_map.mpr ⟨other, hother, hsame.symm⟩)
        · exact hreads f hf
    · cases (Prod.mk.inj h).2

theorem writeFiles_error {files : List (String × String)} {e : PackingError}
    (h : writeFiles t files = (t', .error e)) : ∃ path reason, e = .unwritten path reason := by
  induction files generalizing t with
  | nil => cases (Prod.mk.inj h).2
  | cons file files ih =>
    rw [writeFiles] at h
    split at h
    · exact ih h
    · obtain ⟨-, herror⟩ := Prod.mk.inj h
      exact ⟨_, _, (Except.error.inj herror).symm⟩

theorem readText_of_read {path text : String} (h : t.read path = .ok (Text.toUtf8 text)) :
    t.readText path = .ok text := by
  rw [FileTree.readText, h]
  simp only [Text.ofUtf8?_toUtf8]

/-! ## Headers -/

def partAt (t : FileTree) (root header : String) : Except PackingError (String × Bytes) :=
  match packedPath? root header with
  | none => .error (.outside header root)
  | some path => (textAt t header).map fun text => (path, Text.toUtf8 text)

theorem partAt_eq_ok_iff {root header : String} {part : String × Bytes} :
    partAt t root header = .ok part ↔ Packs t root header part := by
  rw [partAt, Packs]
  cases packedPath? root header with
  | none => simp
  | some path =>
    simp only [textAt, Option.some.injEq]
    cases t.readText header with
    | error reason => simp [Except.map]
    | ok text =>
      obtain ⟨name, data⟩ := part
      simp [Except.map]

theorem packOnto_eq_mapM (root : String) (packed : PackedHeaders) (headers : List String) :
    packOnto t root packed headers = (headers.mapM (partAt t root)).map packed.pushAll := by
  induction headers generalizing packed with
  | nil => rfl
  | cons header headers ih =>
    rw [packOnto, List.mapM_cons, partAt]
    cases packedPath? root header with
    | none => rfl
    | some path =>
      cases textAt t header with
      | error e => rfl
      | ok text =>
        simp only [ih]
        cases headers.mapM (partAt t root) <;> rfl

/-- **Packing fails over the first header that is outside or cannot be read**, or because there is
none. -/
theorem packHeaders_eq_error_iff {root : String} {headers : List String} {e : PackingError} :
    packHeaders t root headers = .error e ↔ (headers = [] ∧ e = .withoutHeaders) ∨
      ∃ before header behind, headers = before ++ header :: behind ∧
        (∀ other ∈ before, ∃ part, partAt t root other = .ok part) ∧
        partAt t root header = .error e := by
  cases headers with
  | nil => simp [packHeaders, eq_comm]
  | cons first headers =>
    have hmap : packHeaders t root (first :: headers) = .error e ↔
        (first :: headers).mapM (partAt t root) = .error e := by
      rw [packHeaders, packOnto_eq_mapM]
      cases (first :: headers).mapM (partAt t root) <;> simp [Except.map]
    rw [hmap, mapM_eq_error_iff]
    simp

end Pack

/-! ## The steps -/

/-- The step fails over what it is given, not over what it writes. -/
def PackingError.isOfInput : PackingError → Bool
  | unwritten _ _ => false
  | _ => true

namespace Pack

variable {t t' : FileTree}

theorem isOfInput_of_partAt {root header : String} {e : PackingError}
    (h : partAt t root header = .error e) : e.isOfInput = true := by
  rw [partAt] at h
  split at h
  · obtain rfl := Except.error.inj h
    rfl
  · cases htext : textAt t header with
    | ok text =>
      rw [htext] at h
      cases h
    | error e' =>
      rw [htext] at h
      obtain rfl := Except.error.inj h
      obtain ⟨reason, -, rfl⟩ := textAt_eq_error_iff.mp htext
      rfl

theorem isOfInput_of_packHeaders {root : String} {headers : List String} {e : PackingError}
    (h : packHeaders t root headers = .error e) : e.isOfInput = true := by
  rcases packHeaders_eq_error_iff.mp h with ⟨-, rfl⟩ | ⟨-, header, -, -, -, hheader⟩
  · rfl
  · exact isOfInput_of_partAt hheader

/-- What there is after the library was written: its three files, made of what there was before, and
every other file as it was. -/
structure LibraryWritten (t t' : FileTree) (o : LibraryOrder) : Prop where
  readable : ∀ path ∈ o.reads, IsReadable t path
  places : (o.outputs.map t.locate).Nodup
  source : t'.readText o.sourcePath = .ok (o.sourceFrom t)
  header : t'.readText o.headerPath = .ok (textOf t o.header)
  license : t'.readText o.licensePath = .ok (textOf t o.license)
  others : ∀ loc ∉ o.outputs.map t.locate, ∀ data executable,
    t'.at? loc = some (.file data executable) ↔ t.at? loc = some (.file data executable)

theorem libraryWritten_of_ok {o : LibraryOrder} (h : writeLibrary t o = (t', .ok ())) :
    LibraryWritten t t' o := by
  rw [writeLibrary] at h
  split at h
  · cases (Prod.mk.inj h).2
  · rename_i files hfiles
    obtain ⟨hreads, rfl⟩ := libraryFiles_eq_ok_iff.mp hfiles
    have hplaces := nodup_outputPlaces t o
    obtain ⟨hgrows, hwritten⟩ := writeFiles_ok h hplaces
    have hsource := hwritten _ (source_mem_filesFrom t o)
    have hheader := hwritten _ (header_mem_filesFrom t o)
    have hlicense := hwritten _ (license_mem_filesFrom t o)
    refine ⟨hreads, hplaces, readText_of_read hsource, readText_of_read hheader,
      readText_of_read hlicense, fun loc hloc => hgrows.file_iff ?_⟩
    rintro ⟨f, hf, rfl⟩
    have hpath : f.1 ∈ (o.filesFrom t).map Prod.fst := List.mem_map_of_mem hf
    exact hloc (List.mem_map_of_mem hpath)

theorem writeLibrary_of_unreadable {o : LibraryOrder}
    (h : ∃ path ∈ o.reads, ¬ IsReadable t path) :
    ∃ path ∈ o.reads, ∃ reason, writeLibrary t o = (t, .error (.unreadable path reason)) := by
  obtain ⟨path, hpath, hunreadable⟩ := h
  cases hfiles : libraryFiles t o with
  | ok files => exact absurd ((libraryFiles_eq_ok_iff.mp hfiles).1 path hpath) hunreadable
  | error e =>
    obtain ⟨before, first, behind, reason, hreads, -, -, rfl⟩ := libraryFiles_eq_error_iff.mp hfiles
    refine ⟨first, by simp [hreads], reason, ?_⟩
    rw [writeLibrary, hfiles]

theorem tree_of_writeLibrary_error {o : LibraryOrder} {e : PackingError} (he : e.isOfInput = true)
    (h : writeLibrary t o = (t', .error e)) : t' = t := by
  rw [writeLibrary] at h
  split at h
  · exact (Prod.mk.inj h).1.symm
  · obtain ⟨path, reason, rfl⟩ := writeFiles_error h
    cases he

theorem tree_of_writeHeaders_error {root out : String} {headers : List String} {e : PackingError}
    (he : e.isOfInput = true) (h : writeHeaders t root out headers = (t', .error e)) : t' = t := by
  rw [writeHeaders] at h
  split at h
  · exact (Prod.mk.inj h).1.symm
  · split at h
    · rename_i hwritten
      obtain ⟨path, reason, rfl⟩ := writeFiles_error hwritten
      obtain ⟨-, herror⟩ := Prod.mk.inj h
      obtain rfl := Except.error.inj herror
      cases he
    · cases (Prod.mk.inj h).2

theorem writeHeaders_of_refused {root out : String} {headers : List String}
    (h : headers = [] ∨ ∃ header ∈ headers, ∀ part, ¬ Packs t root header part) :
    ∃ e : PackingError, e.isOfInput = true ∧
      writeHeaders t root out headers = (t, .error e) := by
  cases hpacked : packHeaders t root headers with
  | error e =>
    refine ⟨e, isOfInput_of_packHeaders hpacked, ?_⟩
    rw [writeHeaders, hpacked]
  | ok packed =>
    exfalso
    rcases h with rfl | ⟨header, hheader, hrefused⟩
    · cases hpacked
    · -- where headers are packed, each of them is
      cases headers with
      | nil => cases hheader
      | cons first headers =>
        rw [packHeaders, packOnto_eq_mapM] at hpacked
        cases hparts : (first :: headers).mapM (partAt t root) with
        | error e =>
          rw [hparts] at hpacked
          cases hpacked
        | ok parts =>
          obtain ⟨part, -, hpart⟩ := exists_mem_of_forall₂ (mapM_eq_ok_iff.mp hparts) hheader
          exact hrefused part (partAt_eq_ok_iff.mp hpart)

/-- **Packing steps read before they write.** Where an input of the library cannot be read, the step
fails over one that cannot and the tree is as it was; where a header is outside or cannot be read,
or there is none, packing headers fails over that and the tree is as it was; and no step that fails
over an input has changed the tree. If the library is written, its source, header and license stand
at three places, hold what comes of the texts that its inputs had before, be they at these places or
not, and no other file has changed. -/
theorem inputs_read_first (t : FileTree) (o : LibraryOrder) (root out : String)
    (headers : List String) :
    ((∃ path ∈ o.reads, ¬ IsReadable t path) →
      ∃ path ∈ o.reads, ∃ reason, writeLibrary t o = (t, .error (.unreadable path reason))) ∧
    (∀ t' path reason, writeLibrary t o = (t', .error (.unreadable path reason)) → t' = t) ∧
    ((headers = [] ∨ ∃ header ∈ headers, ∀ part, ¬ Packs t root header part) →
      ∃ e : PackingError, e.isOfInput = true ∧
        writeHeaders t root out headers = (t, .error e)) ∧
    (∀ t' e, e.isOfInput = true → writeHeaders t root out headers = (t', .error e) → t' = t) ∧
    ∀ t', writeLibrary t o = (t', .ok ()) → LibraryWritten t t' o := by
  refine ⟨writeLibrary_of_unreadable, ?_, writeHeaders_of_refused, ?_, ?_⟩
  · intro t' path reason h
    exact tree_of_writeLibrary_error rfl h
  · intro t' e he h
    exact tree_of_writeHeaders_error he h
  · intro t' h
    exact libraryWritten_of_ok h

namespace Sample

/-- A directory in which the library is written over what it is made of: its header is copied from
the old license, and its license from the old header. -/
def shelf : FileTree where
  items :=
    [(["x.c"], .file (Text.toUtf8 "int x;\n") false), (["w.c"], .file [] false),
      (["s.c"], .file [] false), (["x.h"], .file (Text.toUtf8 "header\n") false),
      (["LICENSE"], .file (Text.toUtf8 "license\n") false), (["inc"], .directory),
      (["inc", "a.h"], .file [] false)]

def swapped (win : String) : LibraryOrder where
  dir := ""
  name := "x"
  header := "LICENSE"
  license := "x.h"
  switch := "WIN"
  win := win
  sysv := "s.c"
  inputs := ["x.c"]

theorem inputs_read_first_swapped :
    (∃ t', writeLibrary shelf (swapped "w.c") = (t', .ok ()) ∧
      t'.readText "x.h" = .ok "license\n" ∧ t'.readText "LICENSE" = .ok "header\n") ∧
    (∃ path reason, writeLibrary shelf (swapped "gone.c") =
      (shelf, .error (.unreadable path reason))) ∧
    ∃ e, writeHeaders shelf "inc" "out.h" ["inc/a.h", "x.h"] = (shelf, .error e) := by
  have hok : (writeLibrary shelf (swapped "w.c")).2 = .ok () := by decide +kernel
  have hgone : ¬ IsReadable shelf "gone.c" := by decide +kernel
  have houtside : packedPath? "inc" "x.h" = none := by decide +kernel
  have hnot : ∀ part, ¬ Packs shelf "inc" "x.h" part := by
    intro part hpart
    rw [Packs, houtside] at hpart
    cases hpart.1
  obtain ⟨-, -, -, -, hwritten⟩ := inputs_read_first shelf (swapped "w.c") "inc" "out.h" []
  obtain ⟨hunreadable, -, hrefused, -⟩ :=
    inputs_read_first shelf (swapped "gone.c") "inc" "out.h" ["inc/a.h", "x.h"]
  have hthere := hwritten _ (Prod.ext rfl hok)
  refine ⟨⟨_, Prod.ext rfl hok, hthere.header, hthere.license⟩, ?_, ?_⟩
  · obtain ⟨path, -, reason, h⟩ := hunreadable ⟨"gone.c", by decide, hgone⟩
    exact ⟨path, reason, h⟩
  · obtain ⟨e, -, h⟩ := hrefused (.inr ⟨"x.h", by decide, hnot⟩)
    exact ⟨e, h⟩

end Sample

end Pack

end BuildPlan
