import BuildPlan.Proofs.Discovery

/-!
# What name patterns mean

A text is a pattern exactly if it has one `*` at most and no slash, and a file name fits exactly if
it is the text with some characters in place of its `*`, so start and ending of a pattern never
overlap in a name that fits (`names_fill_pattern`). It makes no difference whether names are compared
and measured by their characters or by their bytes (`fitsBytes_eq`): in UTF-8 no character begins or
ends within another one.
-/

namespace BuildPlan

/-! ## Bytes at the start and at the end of a text -/

namespace Text

def bytesOf (cs : List Char) : Bytes :=
  toUtf8 (String.ofList cs)

theorem bytesOf_toList (s : String) : bytesOf s.toList = toUtf8 s := by
  rw [bytesOf, String.ofList_toList]

theorem bytesOf_cons (c : Char) (cs : List Char) :
    bytesOf (c :: cs) = String.utf8EncodeChar c ++ bytesOf cs := by
  rw [bytesOf, bytesOf, toUtf8_ofList, toUtf8_ofList, List.flatMap_cons]

theorem bytesOf_append (cs ds : List Char) : bytesOf (cs ++ ds) = bytesOf cs ++ bytesOf ds := by
  rw [bytesOf, bytesOf, bytesOf, toUtf8_ofList, toUtf8_ofList, toUtf8_ofList, List.flatMap_append]

theorem bytesOf_injective {cs ds : List Char} (h : bytesOf cs = bytesOf ds) : cs = ds :=
  String.ofList_injective (toUtf8_injective h)

theorem bytesOf_eq_nil_iff {cs : List Char} : bytesOf cs = [] ↔ cs = [] :=
  ⟨fun h => bytesOf_injective h, fun h => h ▸ rfl⟩

theorem utf8EncodeChar_append_inj {c d : Char} {s t : List UInt8}
    (h : String.utf8EncodeChar c ++ s = String.utf8EncodeChar d ++ t) : c = d ∧ s = t := by
  rcases lt_trichotomy c d with hlt | rfl | hlt
  · exact absurd (h ▸ utf8EncodeChar_append_lt hlt s t) (List.lt_irrefl _)
  · exact ⟨rfl, List.append_cancel_left h⟩
  · exact absurd (h ▸ utf8EncodeChar_append_lt hlt t s) (List.lt_irrefl _)

/-- The bytes of a character are its only ones that begin with a first byte. -/
theorem eq_of_suffix_utf8EncodeChar {c d : Char} {v s t : List UInt8}
    (hv : v ≠ []) (hsuffix : v <:+ String.utf8EncodeChar d)
    (h : String.utf8EncodeChar c ++ s = v ++ t) : v = String.utf8EncodeChar d := by
  obtain ⟨u, hu⟩ := hsuffix
  obtain ⟨b, v, rfl⟩ := List.exists_cons_of_ne_nil hv
  have hpos : 0 < (String.utf8EncodeChar c).length :=
    List.length_pos_of_ne_nil String.utf8EncodeChar_ne_nil
  have hfirst : b.IsUTF8FirstByte := by
    have hb : (String.utf8EncodeChar c)[0] = b := by
      have hget := congrArg (fun l => l[0]?) h
      simpa [List.getElem?_append_left hpos, List.getElem?_eq_getElem hpos] using hget
    rw [← hb, UInt8.isUTF8FirstByte_getElem_utf8EncodeChar]
  have hlength : u.length < (String.utf8EncodeChar d).length := by
    rw [← hu, List.length_append, List.length_cons]
    omega
  have hb : (String.utf8EncodeChar d)[u.length] = b := by
    simp [← hu]
  rw [← hb, UInt8.isUTF8FirstByte_getElem_utf8EncodeChar] at hfirst
  rw [← hu, List.eq_nil_of_length_eq_zero hfirst, List.nil_append]

theorem prefix_of_bytesOf_prefix {cs ds : List Char} (h : bytesOf cs <+: bytesOf ds) :
    cs <+: ds := by
  induction cs generalizing ds with
  | nil => exact List.nil_prefix
  | cons c cs ih =>
    obtain ⟨rest, hrest⟩ := h
    cases ds with
    | nil =>
      rw [bytesOf_cons, List.append_assoc] at hrest
      exact absurd (List.append_eq_nil_iff.mp hrest).1 String.utf8EncodeChar_ne_nil
    | cons d ds =>
      rw [bytesOf_cons, bytesOf_cons, List.append_assoc] at hrest
      obtain ⟨rfl, htail⟩ := utf8EncodeChar_append_inj hrest
      exact List.cons_prefix_cons.mpr ⟨rfl, ih ⟨rest, htail⟩⟩

theorem suffix_of_bytesOf_suffix {cs ds : List Char} (h : bytesOf cs <:+ bytesOf ds) :
    cs <:+ ds := by
  induction ds with
  | nil => exact bytesOf_eq_nil_iff.mp (List.suffix_nil.mp h) ▸ List.suffix_refl _
  | cons d ds ih =>
    obtain ⟨front, hfront⟩ := h
    rw [bytesOf_cons] at hfront
    rcases List.append_eq_append_iff.mp hfront with ⟨v, hv, hcs⟩ | ⟨w, -, hds⟩
    · -- the text begins within the bytes of the first character, so at one of its ends
      by_cases hnil : v = []
      · rw [hnil, List.nil_append] at hcs
        exact bytesOf_injective hcs ▸ List.suffix_cons d ds
      · obtain ⟨c, cs, rfl⟩ : ∃ c cs', cs = c :: cs' := by
          refine List.exists_cons_of_ne_nil fun hempty => hnil ?_
          rw [hempty] at hcs
          exact (List.append_eq_nil_iff.mp hcs.symm).1
        rw [bytesOf_cons] at hcs
        have hwhole := eq_of_suffix_utf8EncodeChar hnil ⟨front, hv.symm⟩ hcs
        rw [hwhole, ← bytesOf_cons, ← bytesOf_cons] at hcs
        exact bytesOf_injective hcs ▸ List.suffix_refl _
    · exact (ih ⟨w, hds.symm⟩).trans (List.suffix_cons d ds)

end Text

/-! ## Names compared by bytes -/

namespace NamePattern

open Text (bytesOf split toUtf8)

/-- Whether a file name fits, with bytes in place of characters. -/
def fitsBytes (p : NamePattern) (name : String) : Bool :=
  match p.ending with
  | none => toUtf8 name == bytesOf p.start
  | some ending =>
    (bytesOf p.start).length + (bytesOf ending).length ≤ (toUtf8 name).length &&
      (bytesOf p.start).isPrefixOf (toUtf8 name) && (bytesOf ending).isSuffixOf (toUtf8 name)

theorem fitsBytes_iff (p : NamePattern) (name : String) :
    p.fitsBytes name = true ↔ p.Matches name := by
  rw [fitsBytes, Matches, ← Text.bytesOf_toList]
  cases p.ending with
  | none =>
    rw [beq_iff_eq]
    exact ⟨Text.bytesOf_injective, fun h => congrArg bytesOf h⟩
  | some ending =>
    simp only [Bool.and_eq_true, decide_eq_true_iff, List.isPrefixOf_iff_prefix,
      List.isSuffixOf_iff_suffix]
    constructor
    · rintro ⟨⟨hlength, hstart⟩, hending⟩
      obtain ⟨rest, hrest⟩ := Text.prefix_of_bytesOf_prefix hstart
      obtain ⟨front, hfront⟩ := Text.suffix_of_bytesOf_suffix hending
      rcases List.append_eq_append_iff.mp (hfront.trans hrest.symm) with
        ⟨v, hv, hover⟩ | ⟨middle, -, hmiddle⟩
      · -- what start and ending share has no bytes, so it has no characters
        have hv' : (bytesOf v).length = 0 := by
          rw [← hfront, hv, hover] at hlength
          simp only [Text.bytesOf_append, List.length_append] at hlength
          omega
        rw [Text.bytesOf_eq_nil_iff.mp (List.eq_nil_of_length_eq_zero hv')] at hover
        exact ⟨[], by rw [← hrest, List.append_nil, hover, List.nil_append]⟩
      · exact ⟨middle, by rw [← hrest, hmiddle, List.append_assoc]⟩
    · rintro ⟨middle, hname⟩
      rw [hname]
      simp only [Text.bytesOf_append, List.length_append]
      exact ⟨⟨by omega, ⟨_, (List.append_assoc ..).symm⟩⟩, ⟨_, rfl⟩⟩

/-- **Bytes or characters**: the same names fit. -/
theorem fitsBytes_eq (p : NamePattern) (name : String) : p.fitsBytes name = p.fits name := by
  rw [Bool.eq_iff_iff, fitsBytes_iff, fits_iff]

/-! ## Reading patterns -/

/-- The text with `middle` in place of each `*`. -/
def filled (middle pattern : List Char) : List Char :=
  pattern.flatMap fun c => if c = '*' then middle else [c]

theorem filled_of_notMem (middle : List Char) {pattern : List Char} (h : '*' ∉ pattern) :
    filled middle pattern = pattern :=
  Text.flatMap_of_notMem h middle

theorem filled_append_star (middle : List Char) {start ending : List Char} (hstart : '*' ∉ start)
    (hending : '*' ∉ ending) :
    filled middle (start ++ '*' :: ending) = start ++ middle ++ ending := by
  rw [filled, List.flatMap_append, List.flatMap_cons, if_pos rfl, ← filled, ← filled,
    filled_of_notMem middle hstart, filled_of_notMem middle hending, List.append_assoc]

def source (p : NamePattern) : List Char :=
  match p.ending with
  | none => p.start
  | some ending => p.start ++ '*' :: ending

/-- Start and ending have no `*` of their own. -/
def IsCut (p : NamePattern) : Prop :=
  '*' ∉ p.start ∧ ∀ ending ∈ p.ending, '*' ∉ ending

theorem IsCut.split_source {p : NamePattern} (h : p.IsCut) :
    split '*' p.source = p.start :: p.ending.toList := by
  obtain ⟨hstart, hending⟩ := h
  obtain ⟨start, ending⟩ := p
  cases ending with
  | none => exact Text.split_of_notMem hstart
  | some ending =>
    rw [source, Text.split_append_sep, Text.split_of_notMem hstart,
      Text.split_of_notMem (hending ending rfl)]
    rfl

theorem IsCut.matches_iff {p : NamePattern} (h : p.IsCut) (name : String) :
    p.Matches name ↔ ∃ middle, name.toList = filled middle p.source := by
  obtain ⟨hstart, hending⟩ := h
  obtain ⟨start, ending⟩ := p
  cases ending with
  | none => simp only [Matches, source, filled_of_notMem _ hstart, exists_const]
  | some ending => simp only [Matches, source, filled_append_star _ hstart (hending ending rfl)]

/-- **A pattern is its text**, cut at the `*`. -/
theorem ofString?_eq_some_iff {s : String} {p : NamePattern} :
    ofString? s = some p ↔ '/' ∉ s.toList ∧ p.IsCut ∧ s.toList = p.source := by
  have hcut : ∀ (start : List Char) (ending : Option (List Char)),
      split '*' s.toList = start :: ending.toList →
        IsCut ⟨start, ending⟩ ∧ s.toList = source ⟨start, ending⟩ := by
    intro start ending hsplit
    have hparts : ∀ part ∈ start :: ending.toList, '*' ∉ part := fun part hpart =>
      Text.notMem_of_mem_split (hsplit ▸ hpart)
    have hiscut : IsCut ⟨start, ending⟩ :=
      ⟨hparts start List.mem_cons_self, fun e he =>
        hparts e (List.mem_cons_of_mem _ (Option.mem_toList.mpr he))⟩
    exact ⟨hiscut, Text.split_injective '*' (hsplit.trans hiscut.split_source.symm)⟩
  unfold ofString?
  split_ifs with hslash
  · simp_all
  · constructor
    · intro h
      split at h
      · rename_i start hsplit
        obtain rfl := Option.some.inj h
        exact ⟨by simpa using hslash, hcut start none hsplit⟩
      · rename_i start ending hsplit
        obtain rfl := Option.some.inj h
        exact ⟨by simpa using hslash, hcut start (some ending) hsplit⟩
      · cases h
    · rintro ⟨-, hiscut, hsource⟩
      rw [hsource, hiscut.split_source]
      obtain ⟨start, ending⟩ := p
      cases ending <;> rfl

theorem IsCut.count_le {p : NamePattern} (h : p.IsCut) : p.source.count '*' ≤ 1 := by
  obtain ⟨hstart, hending⟩ := h
  obtain ⟨start, ending⟩ := p
  cases ending with
  | none => simp [source, List.count_eq_zero_of_not_mem hstart]
  | some ending =>
    simp [source, List.count_eq_zero_of_not_mem hstart,
      List.count_eq_zero_of_not_mem (hending ending rfl)]

theorem exists_isCut {s : List Char} (h : s.count '*' ≤ 1) :
    ∃ p : NamePattern, p.IsCut ∧ s = p.source := by
  by_cases hstar : '*' ∈ s
  · obtain ⟨start, ending, rfl, hstart⟩ := List.eq_append_cons_of_mem hstar
    refine ⟨⟨start, some ending⟩, ⟨hstart, ?_⟩, rfl⟩
    rintro _ ⟨⟩
    rw [List.count_append, List.count_cons_self] at h
    exact List.count_eq_zero.mp (by omega)
  · exact ⟨⟨s, none⟩, ⟨hstar, nofun⟩, rfl⟩

theorem exists_ofString?_iff (s : String) :
    (∃ p, ofString? s = some p) ↔ s.toList.count '*' ≤ 1 ∧ '/' ∉ s.toList := by
  simp only [ofString?_eq_some_iff]
  constructor
  · rintro ⟨p, hslash, hcut, hsource⟩
    exact ⟨hsource ▸ hcut.count_le, hslash⟩
  · rintro ⟨hcount, hslash⟩
    obtain ⟨p, hcut, hsource⟩ := exists_isCut hcount
    exact ⟨p, hslash, hcut, hsource⟩

theorem readPattern_eq_ok_iff {s : String} {p : NamePattern} :
    Project.readPattern s = .ok p ↔ ofString? s = some p := by
  rw [Project.readPattern]
  cases ofString? s <;> simp

theorem eq_of_readPattern_error {s : String} {e : Project.Flaw}
    (h : Project.readPattern s = .error e) : e = .badPattern s := by
  rw [Project.readPattern] at h
  split at h
  · cases h
  · exact (Except.error.inj h).symm

/-- **Patterns stand for the names that they can be filled to.** A text is read as a pattern exactly
if it has one `*` at most and no slash, and is refused as a bad pattern otherwise. A name fits, be it
compared by characters or by bytes, exactly if it is the text with some characters, or none, in place
of its `*`. -/
theorem names_fill_pattern (s : String) :
    ((∃ p, Project.readPattern s = .ok p) ↔ s.toList.count '*' ≤ 1 ∧ '/' ∉ s.toList) ∧
    (∀ e, Project.readPattern s = .error e → e = .badPattern s) ∧
    ∀ p, Project.readPattern s = .ok p → ∀ name : String,
      (p.fits name = true ↔ ∃ middle, name.toList = filled middle s.toList) ∧
      (p.fitsBytes name = true ↔ ∃ middle, name.toList = filled middle s.toList) := by
  refine ⟨?_, fun e => eq_of_readPattern_error, fun p hp name => ?_⟩
  · simp only [readPattern_eq_ok_iff]
    exact exists_ofString?_iff s
  · obtain ⟨-, hcut, hsource⟩ := ofString?_eq_some_iff.mp (readPattern_eq_ok_iff.mp hp)
    rw [fitsBytes_eq, fits_iff, hsource]
    exact ⟨hcut.matches_iff name, hcut.matches_iff name⟩

/-- Start and ending may touch in a name, but not overlap. -/
theorem names_fill_pattern_touching :
    (∃ p, Project.readPattern "aé*éa" = .ok p ∧ p.fits "aéa" = false ∧
      p.fits "aééa" = true ∧ p.fitsBytes "aé日éa" = true) ∧
    Project.readPattern "a*b*c" = .error (.badPattern "a*b*c") := by
  obtain ⟨⟨-, hread⟩, -, hfits⟩ := names_fill_pattern "aé*éa"
  obtain ⟨p, hp⟩ := hread (by decide)
  refine ⟨⟨p, hp, ?_, ?_, ?_⟩, ?_⟩
  · rw [← Bool.not_eq_true, (hfits p hp "aéa").1]
    rintro ⟨middle, hname⟩
    rw [show "aé*éa".toList = ['a', 'é'] ++ '*' :: ['é', 'a'] from rfl,
      filled_append_star middle (by decide) (by decide)] at hname
    have hlength := congrArg List.length hname
    simp at hlength
  · exact (hfits p hp "aééa").1.mpr ⟨[], by decide⟩
  · exact (hfits p hp "aé日éa").2.mpr ⟨['日'], by decide⟩
  · obtain ⟨⟨hcount, -⟩, herror, -⟩ := names_fill_pattern "a*b*c"
    cases hread : Project.readPattern "a*b*c" with
    | ok p => exact absurd (hcount ⟨p, hread⟩).1 (by decide)
    | error e => rw [herror e hread]

end NamePattern

end BuildPlan
