import BuildPlan.Pack.Library
import BuildPlan.Proofs.Lines
import BuildPlan.Proofs.Replacing
import Mathlib.Data.List.Forall2

/-!
# The sections of the library's source

Each member has a section between two comments that name it. What stands there are its lines in
order, but for those that are left out, each with its markers replaced and ended by a line feed. The
two markers are replaced in two passes, and the passes do not get into each other's way: a section
has `static ` for each marker that its file had, and no marker (`isBody_memberBody`).
-/

namespace BuildPlan

namespace Text

theorem exists_line_of_mem_pieces {s p : List Char} (hp : p ∈ pieces s) :
    ∃ l, '\n' ∉ l ∧ (p = l ++ ['\n'] ∨ p = l) := by
  induction s using line_induction with
  | last l hl =>
    by_cases hne : l = []
    · subst hne
      exact absurd hp List.not_mem_nil
    · rw [pieces_of_notMem hne hl, List.mem_singleton] at hp
      exact ⟨l, hl, .inr hp⟩
  | line l rest hl ih =>
    rw [pieces_append_newline hl, List.mem_cons] at hp
    rcases hp with rfl | hp
    · exact ⟨l, hl, .inl rfl⟩
    · exact ih hp

theorem stripStart?_eq_some_iff {pat s rest : List Char} :
    stripStart? pat s = some rest ↔ s = pat ++ rest := by
  fun_induction stripStart? pat s with
  | case1 s => simp
  | case2 p ps => simp
  | case3 ps c cs ih => rw [ih, List.cons_append, List.cons_inj_right]
  | case4 p ps c cs hne => simp [Ne.symm hne]

theorem takeWhile_bne_append {c : Char} {l : List Char} (h : c ∉ l) (rest : List Char) :
    (l ++ c :: rest).takeWhile (· != c) = l := by
  have hl : ∀ d ∈ l, (d != c) = true := fun d hd => bne_iff_ne.mpr fun hdc => h (hdc ▸ hd)
  rw [List.takeWhile_append_of_pos hl, List.takeWhile_cons_of_neg (by simp), List.append_nil]

/-- An occurrence lies within one of the texts that a separator ends. -/
theorem exists_infix_of_infix_flatten {sep : Char} {pat : List Char} (hsep : sep ∉ pat)
    (hpat : pat ≠ []) {texts : List (List Char)}
    (h : pat <:+: (texts.map (· ++ [sep])).flatten) : ∃ text ∈ texts, pat <:+: text := by
  induction texts with
  | nil => exact absurd (List.infix_nil.mp h) hpat
  | cons text texts ih =>
    rw [List.map_cons, List.flatten_cons, List.append_assoc, List.singleton_append] at h
    rcases infix_append_sep hsep h with h | h
    · exact ⟨text, List.mem_cons_self, h⟩
    · obtain ⟨text', hmem, h'⟩ := ih h
      exact ⟨text', List.mem_cons_of_mem text hmem, h'⟩

theorem foldl_replace_append_sep {sep : Char} {marks : List (List Char)}
    (hmarks : ∀ m ∈ marks, sep ∉ m ∧ m ≠ []) (sub s : List Char) :
    marks.foldl (fun s m => replace m sub s) (s ++ [sep]) =
      marks.foldl (fun s m => replace m sub s) s ++ [sep] := by
  induction marks generalizing s with
  | nil => rfl
  | cons m marks ih =>
    obtain ⟨⟨hsep, hne⟩, hrest⟩ := List.forall_mem_cons.mp hmarks
    have hempty : m.isEmpty = false := List.isEmpty_eq_false_iff.mpr hne
    have hpass : replace m sub (s ++ [sep]) = replace m sub s ++ [sep] := by
      rw [replace, replace, hempty]
      exact replaceFrom_append_sep hsep hne sub [] (Nat.zero_le _)
    rw [List.foldl_cons, List.foldl_cons, hpass, ih hrest]

end Text

namespace Library

variable {members : List String} {line : List Char}

/-! ## Lines that are left out -/

/-- A declaration for other objects, or the inclusion of a member by the last parts of its path. -/
def LeavesOut (members : List String) (line : List Char) : Prop :=
  foreignMark <+: line ∨
    ∃ (name : String) (rest : List Char), '"' ∉ name.toList ∧
      line = includeStart ++ name.toList ++ '"' :: rest ∧
      ∃ path ∈ members, Path.components name <:+ Path.components path

theorem includedName?_eq_some_iff {name : String} :
    includedName? line = some name ↔
      ∃ rest, '"' ∉ name.toList ∧ line = includeStart ++ name.toList ++ '"' :: rest := by
  constructor
  · intro h
    rw [includedName?] at h
    cases hstart : Text.stripStart? includeStart line with
    | none =>
      rw [hstart] at h
      cases h
    | some behind =>
      rw [hstart] at h
      dsimp only at h
      split_ifs at h with hquote
      obtain ⟨l, rest, rfl, hl⟩ := List.eq_append_cons_of_mem (List.contains_iff_mem.mp hquote)
      rw [Text.takeWhile_bne_append hl, Option.some_inj] at h
      subst h
      refine ⟨rest, by rwa [String.toList_ofList], ?_⟩
      rw [Text.stripStart?_eq_some_iff.mp hstart, String.toList_ofList, List.append_assoc]
  · rintro ⟨rest, hname, rfl⟩
    rw [includedName?, List.append_assoc, Text.stripStart?_eq_some_iff.mpr rfl]
    dsimp only
    rw [if_pos (by simp), Text.takeWhile_bne_append hname, String.ofList_toList]

theorem namesMember_iff :
    namesMember members line = true ↔
      ∃ name, includedName? line = some name ∧
        ∃ path ∈ members, Path.components name <:+ Path.components path := by
  rw [namesMember]
  cases includedName? line with
  | none => simp
  | some name => simp [Path.endsWith]

theorem isDropped_iff : isDropped members line = true ↔ LeavesOut members line := by
  rw [isDropped, Bool.or_eq_true, List.isPrefixOf_iff_prefix, namesMember_iff, LeavesOut]
  refine or_congr_right (exists_congr fun name => ?_)
  rw [includedName?_eq_some_iff, ← exists_and_right]
  simp only [and_assoc]

instance (members : List String) : DecidablePred (LeavesOut members) := fun line =>
  decidable_of_iff (isDropped members line = true) isDropped_iff

theorem filter_isDropped (members : List String) (lines : List (List Char)) :
    lines.filter (!isDropped members ·) = lines.filter (¬ LeavesOut members ·) := by
  refine List.filter_congr fun line _ => ?_
  rw [Bool.eq_iff_iff, Bool.not_eq_true', decide_eq_true_iff, ← isDropped_iff,
    Bool.not_eq_true]

/-! ## Lines that are kept -/

/-- How a line that is kept stands in the library: its markers replaced, and one line feed at its
end, whether it had one or not. -/
def KeptAs (line out : List Char) : Prop :=
  ∃ text written, (line = text ++ ['\n'] ∨ line = text) ∧ '\n' ∉ text ∧
    Text.Replaced staticMarks staticWord text written ∧ '\n' ∉ written ∧ out = written ++ ['\n']

theorem apart_staticMarks : Text.PassesApart staticMarks staticWord where
  mark_sub := List.forall_mem_cons.mpr ⟨⟨'I', _, rfl, by decide⟩,
    List.forall_mem_singleton.mpr ⟨'D', _, rfl, by decide⟩⟩
  sub_mark := List.forall_mem_cons.mpr ⟨⟨'s', _, rfl, by decide⟩,
    List.forall_mem_singleton.mpr ⟨'s', _, rfl, by decide⟩⟩
  later := List.pairwise_pair.mpr ⟨'I', _, rfl, by decide⟩

theorem replaced_markStatic (line : List Char) :
    Text.Replaced staticMarks staticWord line (markStatic line) :=
  Text.replaced_foldl apart_staticMarks line

-- a marker that the first pass leaves cut in two is none for the second
example : markStatic "DASM_IMPLSTATIC FDEF x".toList = "DASM_static FDEF x".toList := by decide

theorem newline_notMem_staticMarks : ∀ m ∈ staticMarks, '\n' ∉ m := by decide

theorem newline_notMem_markStatic (h : '\n' ∉ line) : '\n' ∉ markStatic line := fun hmem =>
  ((replaced_markStatic line).mem_or_mem hmem).elim h (by decide)

theorem markStatic_append_newline (line : List Char) :
    markStatic (line ++ ['\n']) = markStatic line ++ ['\n'] :=
  Text.foldl_replace_append_sep
    (fun m hm => ⟨newline_notMem_staticMarks m hm, (apart_staticMarks.mark_sub m hm).ne_nil⟩) _ _

theorem endLine_append_newline (line : List Char) : endLine (line ++ ['\n']) = line ++ ['\n'] := by
  rw [endLine, if_pos List.getLast?_concat]

theorem endLine_of_notMem (h : '\n' ∉ line) : endLine line = line ++ ['\n'] := by
  rw [endLine, if_neg fun hlast => h (List.mem_of_getLast? hlast)]

theorem exists_endLine_markStatic_eq {s : List Char} (hline : line ∈ Text.pieces s) :
    ∃ text, (line = text ++ ['\n'] ∨ line = text) ∧ '\n' ∉ text ∧
      endLine (markStatic line) = markStatic text ++ ['\n'] := by
  obtain ⟨text, htext, hend⟩ := Text.exists_line_of_mem_pieces hline
  refine ⟨text, hend, htext, ?_⟩
  rcases hend with rfl | rfl
  · rw [markStatic_append_newline, endLine_append_newline]
  · exact endLine_of_notMem (newline_notMem_markStatic htext)

theorem keptAs_of_mem_pieces {s : List Char} (hline : line ∈ Text.pieces s) :
    KeptAs line (endLine (markStatic line)) := by
  obtain ⟨text, hend, htext, hout⟩ := exists_endLine_markStatic_eq hline
  exact ⟨text, markStatic text, hend, htext, replaced_markStatic text,
    newline_notMem_markStatic htext, hout⟩

theorem flatten_map_endLine_pieces (s : List Char) :
    ((Text.pieces s).map endLine).flatten = Text.endLastLine s := by
  induction s using Text.line_induction with
  | last l hl =>
    by_cases hne : l = []
    · subst hne
      rfl
    · have hlast : l.getLast? ≠ some '\n' := fun hlast => hl (List.mem_of_getLast? hlast)
      rw [Text.pieces_of_notMem hne hl, List.map_singleton, List.flatten_singleton,
        endLine_of_notMem hl, Text.endLastLine, if_neg (not_or.mpr ⟨hne, hlast⟩)]
  | line l rest hl ih =>
    rw [Text.pieces_append_newline hl, List.map_cons, List.flatten_cons, ih,
      endLine_append_newline, Text.endLastLine_append_newline, List.append_assoc,
      List.singleton_append]

/-! ## Sections -/

/-- What stands in the library for the contents of a file. -/
structure IsBody (members : List String) (contents body : String) : Prop where
  /-- The lines that are not left out, in order. -/
  lines : ∃ outs, List.Forall₂ KeptAs
    ((Text.pieces contents.toList).filter (¬ LeavesOut members ·)) outs ∧
    body.toList = outs.flatten
  /-- No marker anywhere, and none that comes up by what was replaced. -/
  unmarked : ∀ m ∈ staticMarks, ¬ m <:+: body.toList
  /-- A file with nothing to leave out or to replace, but for a last line that is not ended. -/
  copied : (∀ line ∈ Text.pieces contents.toList, ¬ LeavesOut members line) →
    (∀ m ∈ staticMarks, ¬ m <:+: contents.toList) →
    body.toList = Text.endLastLine contents.toList

theorem keptLines_eq (members : List String) (contents : String) :
    keptLines members contents =
      ((Text.pieces contents.toList).filter (¬ LeavesOut members ·)).map
        fun line => endLine (markStatic line) := by
  rw [keptLines, filter_isDropped]

theorem forall₂_keptLines (members : List String) (contents : String) :
    List.Forall₂ KeptAs ((Text.pieces contents.toList).filter (¬ LeavesOut members ·))
      (keptLines members contents) := by
  rw [keptLines_eq, List.forall₂_map_right_iff, List.forall₂_same]
  exact fun line hline => keptAs_of_mem_pieces (List.mem_of_mem_filter hline)

theorem exists_keptLines_eq (members : List String) (contents : String) :
    ∃ texts : List (List Char),
      keptLines members contents = (texts.map markStatic).map (· ++ ['\n']) := by
  rw [keptLines_eq]
  have hlines : ∀ line ∈ (Text.pieces contents.toList).filter (¬ LeavesOut members ·),
      ∃ text, endLine (markStatic line) = markStatic text ++ ['\n'] := by
    intro line hline
    obtain ⟨text, -, -, hout⟩ := exists_endLine_markStatic_eq (List.mem_of_mem_filter hline)
    exact ⟨text, hout⟩
  choose! text htext using hlines
  refine ⟨((Text.pieces contents.toList).filter (¬ LeavesOut members ·)).map text, ?_⟩
  rw [List.map_map, List.map_map]
  exact List.map_congr_left htext

theorem unmarked_keptLines (members : List String) (contents : String) {m : List Char}
    (hm : m ∈ staticMarks) : ¬ m <:+: (keptLines members contents).flatten := by
  obtain ⟨texts, htexts⟩ := exists_keptLines_eq members contents
  rw [htexts]
  intro hoccurs
  obtain ⟨written, hwritten, hoccurs⟩ := Text.exists_infix_of_infix_flatten
    (newline_notMem_staticMarks m hm) (apart_staticMarks.mark_sub m hm).ne_nil hoccurs
  obtain ⟨text, -, rfl⟩ := List.mem_map.mp hwritten
  exact (replaced_markStatic text).unmarked apart_staticMarks hm hoccurs

theorem keptLines_flatten_of_plain {contents : String}
    (hkept : ∀ line ∈ Text.pieces contents.toList, ¬ LeavesOut members line)
    (hplain : ∀ m ∈ staticMarks, ¬ m <:+: contents.toList) :
    (keptLines members contents).flatten = Text.endLastLine contents.toList := by
  have hsame : ∀ line ∈ Text.pieces contents.toList, markStatic line = line := by
    intro line hline
    refine (replaced_markStatic line).eq_of_unmarked fun m hm hoccurs => hplain m hm ?_
    rw [← Text.flatten_pieces contents.toList]
    exact hoccurs.trans (List.infix_of_mem_flatten hline)
  rw [keptLines_eq, List.filter_eq_self.mpr fun line hline => decide_eq_true (hkept line hline),
    List.map_congr_left fun line hline => congrArg endLine (hsame line hline),
    flatten_map_endLine_pieces]

theorem isBody_memberBody (members : List String) (m : LibraryMember) :
    IsBody members m.contents (memberBody members m) where
  lines := ⟨keptLines members m.contents, forall₂_keptLines members m.contents,
    String.toList_ofList⟩
  unmarked mark hmark := by
    rw [memberBody, String.toList_ofList]
    exact unmarked_keptLines members m.contents hmark
  copied hkept hplain := by
    rw [memberBody, String.toList_ofList]
    exact keptLines_flatten_of_plain hkept hplain

/-- All that is written for a member: directives, and between the two comments that name it what
stands for its contents. -/
def IsSection (members : List String) (m : LibraryMember) (text : String) : Prop :=
  ∃ (opening closing : List String) (body : String),
    text = Text.unlines (opening ++ ["//", "// START OF " ++ shownPath m.path, "//"]) ++ body ++
      Text.unlines (["//", "// END OF " ++ shownPath m.path, "//"] ++ closing) ∧
    (∀ directive ∈ opening ++ closing, directive.toList.head? = some '#') ∧
    IsBody members m.contents body

theorem exists_memberHead_eq (path : String) :
    ∃ opening, memberHead path = opening ++ ["//", "// START OF " ++ shownPath path, "//"] ∧
      ∀ directive ∈ opening, directive.toList.head? = some '#' := by
  refine ⟨_, rfl, fun directive hmem => ?_⟩
  simp only [strayMacros, assemblerWarnings] at hmem
  split at hmem <;> revert directive <;> simp

theorem exists_memberTail_eq (path : String) :
    ∃ closing, memberTail path = ["//", "// END OF " ++ shownPath path, "//"] ++ closing ∧
      ∀ directive ∈ closing, directive.toList.head? = some '#' := by
  refine ⟨_, rfl, fun directive hmem => ?_⟩
  split at hmem <;> revert directive <;> simp

theorem isSection_memberText (members : List String) (m : LibraryMember) :
    IsSection members m (memberText members m) := by
  obtain ⟨opening, hhead, hopening⟩ := exists_memberHead_eq m.path
  obtain ⟨closing, htail, hclosing⟩ := exists_memberTail_eq m.path
  refine ⟨opening, closing, memberBody members m, by rw [memberText, hhead, htail], ?_,
    isBody_memberBody members m⟩
  exact fun directive hmem => (List.mem_append.mp hmem).elim (hopening directive)
    (hclosing directive)

/-- **The library's source** is a section for each input, and behind the switch one for each
variant. Between its two comments a section has the lines of its file in order, but for exactly
those that are left out; each as it was, but for `static ` in place of each marker and a line feed
at its end; and no marker anywhere. -/
theorem source_sections (inputs : List LibraryMember) (switch : String)
    (win sysv : LibraryMember) :
    ∃ (texts : List String) (winText sysvText : String),
      List.Forall₂ (IsSection ((inputs ++ [win, sysv]).map (·.path))) inputs texts ∧
      IsSection ((inputs ++ [win, sysv]).map (·.path)) win winText ∧
      IsSection ((inputs ++ [win, sysv]).map (·.path)) sysv sysvText ∧
      source inputs switch win sysv =
        String.join texts ++ "#if " ++ switch ++ "\n" ++ winText ++
          "#else // ^^^ " ++ switch ++ " / !" ++ switch ++ " vvv\n" ++ sysvText ++
          "#endif // !" ++ switch ++ "\n" := by
  refine ⟨_, _, _, ?_, isSection_memberText _ win, isSection_memberText _ sysv, rfl⟩
  rw [List.forall₂_map_right_iff, List.forall₂_same]
  exact fun m _ => isSection_memberText _ m

end Library

end BuildPlan
