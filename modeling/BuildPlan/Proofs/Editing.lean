import BuildPlan.Proofs.Lines
import BuildPlan.Proofs.Replacing
import BuildPlan.Proofs.Session

/-!
# Edits of lines

An edit is taken exactly if its file is declared and what it looks for stands in its line, and it
changes that line alone: the edited text is cut into the same lines again, but for the new one
(`Cut.IsAt.pieces_flatten`). So two edits of different files can be made in either order, and two
edits of different lines as well, unless one of them brings in a line feed (`edits_local`).
-/

namespace BuildPlan

/-! ## One line of a text -/

namespace Text

/-- A piece without its line feed. -/
def bareLine (piece : List Char) : List Char :=
  (stripEnd? '\n' piece).getD piece

/-- A text cut around one of its lines. -/
structure Cut where
  above : List (List Char)
  text : List Char
  ending : List Char
  below : List (List Char)

namespace Cut

/-- The pieces with another text in the line. -/
def pieces (c : Cut) (new : List Char) : List (List Char) :=
  c.above ++ (new ++ c.ending) :: c.below

/-- The text is cut around the line with the given number, the first one being 1. -/
structure IsAt (c : Cut) (s : List Char) (number : Nat) : Prop where
  pieces_eq : Text.pieces s = c.pieces c.text
  number_eq : number = c.above.length + 1
  newline_notMem : '\n' ∉ c.text
  ending_eq : c.ending = ['\n'] ∨ c.ending = [] ∧ c.below = []

end Cut

theorem exists_isAt {s p : List Char} {number : Nat} (hnumber : 0 < number)
    (h : (pieces s)[number - 1]? = some p) :
    ∃ c : Cut, c.IsAt s number ∧ c.text ++ c.ending = p := by
  obtain ⟨above, below, hs, hlength⟩ : ∃ above below,
      pieces s = above ++ p :: below ∧ above.length = number - 1 := by
    obtain ⟨hlt, rfl⟩ := List.getElem?_eq_some_iff.mp h
    refine ⟨(pieces s).take (number - 1), (pieces s).drop (number - 1 + 1), ?_, ?_⟩
    · simp
    · simp only [List.length_take]
      omega
  suffices hline : ∃ text ending, text ++ ending = p ∧ '\n' ∉ text ∧
      (ending = ['\n'] ∨ ending = [] ∧ below = []) by
    obtain ⟨text, ending, rfl, htext, hending⟩ := hline
    exact ⟨⟨above, text, ending, below⟩, ⟨hs, by dsimp only; omega, htext, hending⟩, rfl⟩
  clear h hlength hnumber
  induction s using line_induction generalizing above with
  | last l hl =>
    by_cases hne : l = []
    · subst hne
      simp [pieces] at hs
    · rw [pieces_of_notMem hne hl] at hs
      obtain ⟨rfl, hp⟩ := List.append_eq_singleton_iff.mp hs.symm |>.resolve_right (by simp)
      obtain ⟨rfl, rfl⟩ := List.cons_eq_cons.mp hp
      exact ⟨p, [], by simp, hl, .inr ⟨rfl, rfl⟩⟩
  | line l rest hl ih =>
    rw [pieces_append_newline hl] at hs
    cases above with
    | nil =>
      obtain ⟨hp, -⟩ := List.cons_eq_cons.mp hs
      exact ⟨l, ['\n'], hp, hl, .inl rfl⟩
    | cons a above =>
      obtain ⟨-, hrest⟩ := List.cons_eq_cons.mp hs
      exact ih above hrest

theorem Cut.IsAt.number_pos {c : Cut} {s : List Char} {number : Nat} (h : c.IsAt s number) :
    0 < number := by
  have hnumber := h.number_eq
  omega

theorem Cut.IsAt.getElem? {c : Cut} {s : List Char} {number : Nat} (h : c.IsAt s number) :
    (Text.pieces s)[number - 1]? = some (c.text ++ c.ending) := by
  rw [h.pieces_eq, h.number_eq]
  simp [Cut.pieces]

theorem Cut.IsAt.set {c : Cut} {s : List Char} {number : Nat} (h : c.IsAt s number)
    (new : List Char) : (Text.pieces s).set (number - 1) (new ++ c.ending) = c.pieces new := by
  rw [h.pieces_eq, h.number_eq]
  simp [Cut.pieces]

theorem Cut.IsAt.bareLine {c : Cut} {s : List Char} {number : Nat} (h : c.IsAt s number) :
    bareLine (c.text ++ c.ending) = c.text := by
  unfold Text.bareLine
  rcases h.ending_eq with hending | ⟨hending, -⟩
  · rw [hending, stripEnd?_concat]
    rfl
  · rw [hending, List.append_nil, stripEnd?_of_notMem h.newline_notMem]
    rfl

/-- **Only the line is cut anew** where its text is exchanged. -/
theorem Cut.IsAt.pieces_flatten {c : Cut} {s : List Char} {number : Nat} (h : c.IsAt s number)
    (new : List Char) :
    Text.pieces (c.pieces new).flatten = c.above ++ Text.pieces (new ++ c.ending) ++ c.below := by
  obtain ⟨above, text, ending, below⟩ := c
  obtain ⟨hpieces, -, -, hending⟩ := h
  simp only [Cut.pieces] at hpieces hending ⊢
  induction s using line_induction generalizing above with
  | last l hl =>
    by_cases hne : l = []
    · subst hne
      simp [Text.pieces] at hpieces
    · rw [pieces_of_notMem hne hl] at hpieces
      obtain ⟨rfl, hp⟩ := List.append_eq_singleton_iff.mp hpieces.symm |>.resolve_right (by simp)
      obtain ⟨-, rfl⟩ := List.cons_eq_cons.mp hp
      simp
  | line l rest hl ih =>
    rw [pieces_append_newline hl] at hpieces
    cases above with
    | nil =>
      obtain ⟨-, hbelow⟩ := List.cons_eq_cons.mp hpieces
      rcases hending with rfl | ⟨rfl, rfl⟩
      · have hfeed : (new ++ ['\n']).getLast? = some '\n' := by simp
        rw [List.nil_append, List.nil_append, List.flatten_cons, pieces_append (.inr hfeed),
          ← hbelow, flatten_pieces]
      · simp
    | cons a above =>
      obtain ⟨rfl, hrest⟩ := List.cons_eq_cons.mp hpieces
      rw [List.cons_append, List.flatten_cons, List.append_assoc, List.singleton_append,
        pieces_append_newline hl, ih above hrest]
      simp

theorem ne_nil_of_mem_pieces {s p : List Char} (h : p ∈ pieces s) : p ≠ [] := by
  induction s using line_induction with
  | last l hl =>
    by_cases hne : l = []
    · subst hne
      cases h
    · rw [pieces_of_notMem hne hl, List.mem_singleton] at h
      exact h ▸ hne
  | line l rest hl ih =>
    rw [pieces_append_newline hl, List.mem_cons] at h
    rcases h with rfl | h
    · simp
    · exact ih h

/-- A line without a line feed is one piece, or none where it is empty and the last. -/
theorem Cut.IsAt.exists_pieces {c : Cut} {s : List Char} {number : Nat} (h : c.IsAt s number)
    {new : List Char} (hnew : '\n' ∉ new) :
    ∃ rest, c.pieces new = Text.pieces (c.pieces new).flatten ++ rest ∧ rest.flatten = [] ∧
      ∀ p ∈ rest, p = [] := by
  rw [h.pieces_flatten]
  unfold Cut.pieces
  rcases h.ending_eq with hending | ⟨hending, hbelow⟩
  · refine ⟨[], ?_, rfl, by simp⟩
    rw [hending, pieces_append_newline hnew]
    simp [Text.pieces]
  · rw [hending, hbelow, List.append_nil]
    by_cases hempty : new = []
    · refine ⟨[[]], ?_, rfl, by simp⟩
      simp [hempty, Text.pieces]
    · refine ⟨[], ?_, rfl, by simp⟩
      rw [pieces_of_notMem hempty hnew]
      simp

/-! ### Two lines of a text -/

section

variable {c d : Cut} {s new : List Char} {number other : Nat}

theorem Cut.IsAt.getElem?_iff (h : c.IsAt s number) (hnew : '\n' ∉ new) {i : Nat} {p : List Char}
    (hp : p ≠ []) :
    (Text.pieces (c.pieces new).flatten)[i]? = some p ↔ (c.pieces new)[i]? = some p := by
  obtain ⟨rest, hrest, -, hempty⟩ := h.exists_pieces hnew
  generalize Text.pieces (c.pieces new).flatten = ps at hrest ⊢
  rw [hrest]
  by_cases hlt : i < ps.length
  · rw [List.getElem?_append_left hlt]
  · rw [List.getElem?_append_right (Nat.not_lt.mp hlt), List.getElem?_eq_none (Nat.not_lt.mp hlt)]
    constructor
    · intro hi
      cases hi
    · intro hi
      exact absurd (hempty p (List.mem_of_getElem? hi)) hp

theorem Cut.IsAt.flatten_set (h : c.IsAt s number) (hnew : '\n' ∉ new)
    (hd : d.IsAt (c.pieces new).flatten other) (new' : List Char) :
    ((c.pieces new).set (other - 1) (new' ++ d.ending)).flatten = (d.pieces new').flatten := by
  obtain ⟨rest, hrest, hflat, -⟩ := h.exists_pieces hnew
  have hlt := (List.getElem?_eq_some_iff.mp hd.getElem?).1
  rw [hrest, List.set_append_left _ _ hlt, List.flatten_append, hflat, List.append_nil, hd.set]

theorem Cut.IsAt.comm (h : c.IsAt s number) (hne : number ≠ other) {new' : List Char}
    (hnew : '\n' ∉ new) (hnew' : '\n' ∉ new') (hd : d.IsAt (c.pieces new).flatten other) :
    ∃ d' c' : Cut, d'.IsAt s other ∧ d'.text = d.text ∧
      c'.IsAt (d'.pieces new').flatten number ∧ c'.text = c.text ∧
      (c'.pieces new).flatten = (d.pieces new').flatten := by
  have hindex : number - 1 ≠ other - 1 := by
    have hpos := h.number_pos
    have hpos' := hd.number_pos
    omega
  have hpiece := ne_nil_of_mem_pieces (List.mem_of_getElem? h.getElem?)
  have hpiece' := ne_nil_of_mem_pieces (List.mem_of_getElem? hd.getElem?)
  have hother : (Text.pieces s)[other - 1]? = some (d.text ++ d.ending) := by
    have hmoved := (h.getElem?_iff hnew hpiece').mp hd.getElem?
    rwa [← h.set, List.getElem?_set_ne hindex] at hmoved
  obtain ⟨d', hd', heq⟩ := exists_isAt hd.number_pos hother
  have htext : d'.text = d.text := by rw [← hd'.bareLine, heq, hd.bareLine]
  have hending : d'.ending = d.ending := List.append_cancel_left (htext ▸ heq)
  have hline : (Text.pieces (d'.pieces new').flatten)[number - 1]? = some (c.text ++ c.ending) := by
    rw [hd'.getElem?_iff hnew' hpiece, ← hd'.set, List.getElem?_set_ne hindex.symm, h.getElem?]
  obtain ⟨c', hc', heq'⟩ := exists_isAt h.number_pos hline
  have htext' : c'.text = c.text := by rw [← hc'.bareLine, heq', h.bareLine]
  have hending' : c'.ending = c.ending := List.append_cancel_left (htext' ▸ heq')
  refine ⟨d', c', hd', htext, hc', htext', ?_⟩
  calc (c'.pieces new).flatten
    _ = ((d'.pieces new').set (number - 1) (new ++ c'.ending)).flatten :=
      (hd'.flatten_set hnew' hc' new).symm
    _ = (((Text.pieces s).set (other - 1) (new' ++ d.ending)).set (number - 1)
          (new ++ c.ending)).flatten := by rw [← hd'.set, hending, hending']
    _ = (((Text.pieces s).set (number - 1) (new ++ c.ending)).set (other - 1)
          (new' ++ d.ending)).flatten := by rw [List.set_comm _ _ hindex.symm]
    _ = ((c.pieces new).set (other - 1) (new' ++ d.ending)).flatten := by rw [h.set]
    _ = (d.pieces new').flatten := h.flatten_set hnew hd new'

end

end Text

namespace Scenario

open Text (Cut bareLine)

/-! ## Edits of a file -/

theorem editPiece?_eq_some_iff {c : Cut} {s : List Char} {number : Nat} (h : c.IsAt s number)
    {find sub edited : List Char} :
    editPiece? find sub (c.text ++ c.ending) = some edited ↔
      find <:+: c.text ∧ edited = Text.replace find sub c.text ++ c.ending := by
  unfold editPiece?
  rcases h.ending_eq with hending | ⟨hending, -⟩
  · rw [hending, Text.stripEnd?_concat]
    simp only [Option.ite_none_right_eq_some, Text.occursIn_iff_infix, Option.some.injEq]
    exact and_congr_right fun _ => eq_comm
  · rw [hending, List.append_nil, List.append_nil, Text.stripEnd?_of_notMem h.newline_notMem]
    simp only [Option.ite_none_right_eq_some, Text.occursIn_iff_infix, Option.some.injEq]
    exact and_congr_right fun _ => eq_comm

def OpenFile.withLine (f : OpenFile) (c : Cut) (new : List Char) : OpenFile :=
  { f with current := String.ofList (c.pieces new).flatten, dirty := true }

theorem OpenFile.replaceOnLine_eq_ok_iff {f f' : OpenFile} {line : Nat}
    {find replacement : String} :
    f.replaceOnLine line find replacement = .ok f' ↔
      ∃ c : Cut, c.IsAt f.current.toList line ∧ find.toList <:+: c.text ∧
        f' = f.withLine c (Text.replace find.toList replacement.toList c.text) := by
  unfold OpenFile.replaceOnLine
  dsimp only
  constructor
  · intro h
    split at h
    · cases h
    · rename_i hline
      split at h
      · cases h
      · rename_i piece hpiece
        split at h
        · cases h
        · rename_i edited hedited
          obtain ⟨c, hc, rfl⟩ := Text.exists_isAt (Nat.pos_of_ne_zero hline) hpiece
          obtain ⟨hfind, rfl⟩ := (editPiece?_eq_some_iff hc).mp hedited
          rw [hc.set] at h
          exact ⟨c, hc, hfind, (Except.ok.inj h).symm⟩
  · rintro ⟨c, hc, hfind, rfl⟩
    have hedited : editPiece? find.toList replacement.toList (c.text ++ c.ending) =
        some (Text.replace find.toList replacement.toList c.text ++ c.ending) :=
      (editPiece?_eq_some_iff hc).mpr ⟨hfind, rfl⟩
    rw [if_neg hc.number_pos.ne', hc.getElem?]
    dsimp only
    rw [hedited]
    dsimp only
    rw [hc.set]
    rfl

/-- **Edits of different lines of a file** that bring in no line feed can be made in either
order. -/
theorem OpenFile.replaceOnLine_comm {f f₁ f₂ : OpenFile} {line line' : Nat}
    {find find' sub sub' : String} (hne : line ≠ line') (hsub : '\n' ∉ sub.toList)
    (hsub' : '\n' ∉ sub'.toList) (h₁ : f.replaceOnLine line find sub = .ok f₁)
    (h₂ : f₁.replaceOnLine line' find' sub' = .ok f₂) :
    ∃ f₃, f.replaceOnLine line' find' sub' = .ok f₃ ∧ f₃.replaceOnLine line find sub = .ok f₂ := by
  have hkeep : ∀ {c : Cut} {s : List Char} {n : Nat} (find : String) {sub : String},
      c.IsAt s n → '\n' ∉ sub.toList →
        '\n' ∉ Text.replace find.toList sub.toList c.text := by
    intro c s n find sub hc hsub hmem
    exact (Text.mem_or_mem_of_mem_replace hmem).elim hc.newline_notMem hsub
  obtain ⟨c, hc, hfind, rfl⟩ := replaceOnLine_eq_ok_iff.mp h₁
  obtain ⟨d, hd, hfind', rfl⟩ := replaceOnLine_eq_ok_iff.mp h₂
  simp only [withLine, String.toList_ofList] at hd
  obtain ⟨d', c', hd', htext, hc', htext', hsame⟩ :=
    hc.comm hne (hkeep find hc hsub) (hkeep find' hd hsub') hd
  rw [← htext] at hc' hsame hfind'
  rw [← htext'] at hsame hfind
  refine ⟨_, replaceOnLine_eq_ok_iff.mpr ⟨d', hd', hfind', rfl⟩,
    replaceOnLine_eq_ok_iff.mpr ⟨c', ?_, hfind, ?_⟩⟩
  · simpa only [withLine, String.toList_ofList] using hc'
  · simp only [withLine, hsame, ← htext, ← htext']

/-! ## Edits of a builder -/

/-- An edit. -/
structure Edit where
  path : String
  line : Nat
  find : String
  replacement : String
  deriving DecidableEq, Repr

def Edit.call (e : Edit) : Call :=
  .edit e.path e.line e.find e.replacement

theorem OpenFile.replaceOnLine_path {f f' : OpenFile} {line : Nat} {find sub : String}
    (h : f.replaceOnLine line find sub = .ok f') : f'.path = f.path := by
  obtain ⟨c, -, -, rfl⟩ := replaceOnLine_eq_ok_iff.mp h
  rfl

theorem editFile_cons_eq_ok_iff {path : String} {line : Nat} {find sub : String} {f : OpenFile}
    {files files' : List OpenFile} :
    editFile path line find sub (f :: files) = .ok files' ↔
      (f.path = path ∧ ∃ f', f.replaceOnLine line find sub = .ok f' ∧ files' = f' :: files) ∨
      (f.path ≠ path ∧ ∃ rest, editFile path line find sub files = .ok rest ∧
        files' = f :: rest) := by
  rw [editFile]
  by_cases hpath : f.path = path
  · rw [if_pos hpath]
    cases hf : f.replaceOnLine line find sub with
    | error err => simp [hpath]
    | ok f' => simp [hpath, eq_comm]
  · rw [if_neg hpath]
    cases hrest : editFile path line find sub files with
    | error err => simp [hpath]
    | ok rest => simp [hpath, eq_comm]

theorem editFile_eq_ok_iff {path : String} {line : Nat} {find sub : String}
    {files files' : List OpenFile} :
    editFile path line find sub files = .ok files' ↔
      ∃ before f behind f', files = before ++ f :: behind ∧ (∀ g ∈ before, g.path ≠ path) ∧
        f.path = path ∧ f.replaceOnLine line find sub = .ok f' ∧
        files' = before ++ f' :: behind := by
  constructor
  · intro h
    induction files generalizing files' with
    | nil => cases h
    | cons f files ih =>
      rcases editFile_cons_eq_ok_iff.mp h with ⟨hpath, f', hf', rfl⟩ | ⟨hpath, rest, hrest, rfl⟩
      · exact ⟨[], f, files, f', rfl, by simp, hpath, hf', rfl⟩
      · obtain ⟨before, g, behind, g', rfl, hbefore, hg, hg', rfl⟩ := ih hrest
        exact ⟨f :: before, g, behind, g', rfl, List.forall_mem_cons.mpr ⟨hpath, hbefore⟩, hg, hg',
          rfl⟩
  · rintro ⟨before, f, behind, f', rfl, hbefore, hpath, hf', rfl⟩
    induction before with
    | nil => exact editFile_cons_eq_ok_iff.mpr (.inl ⟨hpath, f', hf', rfl⟩)
    | cons g before ih =>
      obtain ⟨hg, hbefore⟩ := List.forall_mem_cons.mp hbefore
      exact editFile_cons_eq_ok_iff.mpr (.inr ⟨hg, _, ih hbefore, rfl⟩)

theorem call_edit_eq_ok_iff {b b' : Builder} {e : Edit} :
    b.call e.call = .ok b' ↔
      ∃ files, editFile e.path e.line e.find e.replacement b.files = .ok files ∧
        b' = { b with files := files, started := true } := by
  unfold Edit.call Builder.call
  cases hfiles : editFile e.path e.line e.find e.replacement b.files with
  | error err => simp [hfiles]
  | ok files => simp [hfiles, eq_comm]

/-- Edits of different files, or of different lines where neither brings in a line feed. -/
def Edit.Apart (e e' : Edit) : Prop :=
  e.path ≠ e'.path ∨
    e.line ≠ e'.line ∧ '\n' ∉ e.replacement.toList ∧ '\n' ∉ e'.replacement.toList

theorem find?_path_eq_some_iff {files : List OpenFile} {path : String} {f : OpenFile} :
    files.find? (·.path == path) = some f ↔
      ∃ before behind, files = before ++ f :: behind ∧ (∀ g ∈ before, g.path ≠ path) ∧
        f.path = path := by
  rw [List.find?_eq_some_iff_append]
  simp only [beq_iff_eq, Bool.not_eq_true', beq_eq_false_iff_ne]
  constructor
  · rintro ⟨hpath, before, behind, hfiles, hbefore⟩
    exact ⟨before, behind, hfiles, hbefore, hpath⟩
  · rintro ⟨before, behind, hfiles, hbefore, hpath⟩
    exact ⟨hpath, before, behind, hfiles, hbefore⟩

theorem editFile_comm {e e' : Edit} (happart : e.Apart e') {files files₁ files₂ : List OpenFile}
    (h₁ : editFile e.path e.line e.find e.replacement files = .ok files₁)
    (h₂ : editFile e'.path e'.line e'.find e'.replacement files₁ = .ok files₂) :
    ∃ files₃, editFile e'.path e'.line e'.find e'.replacement files = .ok files₃ ∧
      editFile e.path e.line e.find e.replacement files₃ = .ok files₂ := by
  induction files generalizing files₁ files₂ with
  | nil => cases h₁
  | cons f files ih =>
    rcases editFile_cons_eq_ok_iff.mp h₁ with ⟨hpath, f₁, hf₁, rfl⟩ | ⟨hpath, rest₁, hrest₁, rfl⟩
    · have hsame := OpenFile.replaceOnLine_path hf₁
      rcases editFile_cons_eq_ok_iff.mp h₂ with
        ⟨hpath', f₂, hf₂, rfl⟩ | ⟨hpath', rest, hrest, rfl⟩
      · -- both edits are of this file, so their lines differ
        have hpaths : e.path = e'.path := by rw [← hpath, ← hpath', hsame]
        obtain ⟨hline, hsub, hsub'⟩ := happart.resolve_left (absurd hpaths)
        obtain ⟨f₃, hf₃, hf₂'⟩ := OpenFile.replaceOnLine_comm hline hsub hsub' hf₁ hf₂
        exact ⟨f₃ :: files, editFile_cons_eq_ok_iff.mpr (.inl ⟨hpath.trans hpaths, f₃, hf₃, rfl⟩),
          editFile_cons_eq_ok_iff.mpr
            (.inl ⟨(OpenFile.replaceOnLine_path hf₃).trans hpath, f₂, hf₂', rfl⟩)⟩
      · rw [hsame] at hpath'
        exact ⟨f :: rest, editFile_cons_eq_ok_iff.mpr (.inr ⟨hpath', rest, hrest, rfl⟩),
          editFile_cons_eq_ok_iff.mpr (.inl ⟨hpath, f₁, hf₁, rfl⟩)⟩
    · rcases editFile_cons_eq_ok_iff.mp h₂ with
        ⟨hpath', f₂, hf₂, rfl⟩ | ⟨hpath', rest₂, hrest₂, rfl⟩
      · refine ⟨f₂ :: files, editFile_cons_eq_ok_iff.mpr (.inl ⟨hpath', f₂, hf₂, rfl⟩),
          editFile_cons_eq_ok_iff.mpr (.inr ⟨?_, rest₁, hrest₁, rfl⟩)⟩
        rwa [OpenFile.replaceOnLine_path hf₂]
      · obtain ⟨rest₃, hrest₃, hrest₂'⟩ := ih hrest₁ hrest₂
        exact ⟨f :: rest₃, editFile_cons_eq_ok_iff.mpr (.inr ⟨hpath', rest₃, hrest₃, rfl⟩),
          editFile_cons_eq_ok_iff.mpr (.inr ⟨hpath, rest₂, hrest₂', rfl⟩)⟩

theorem calls_edit_edit_eq_ok_iff {b b' : Builder} {e e' : Edit} :
    b.calls [e.call, e'.call] = .ok b' ↔
      ∃ files₁ files₂, editFile e.path e.line e.find e.replacement b.files = .ok files₁ ∧
        editFile e'.path e'.line e'.find e'.replacement files₁ = .ok files₂ ∧
        b' = { b with files := files₂, started := true } := by
  rw [calls_cons]
  constructor
  · rintro ⟨b₁, h₁, h₂⟩
    obtain ⟨b₂, h₂, hend⟩ := calls_cons.mp h₂
    obtain ⟨files₁, hfiles₁, rfl⟩ := call_edit_eq_ok_iff.mp h₁
    obtain ⟨files₂, hfiles₂, rfl⟩ := call_edit_eq_ok_iff.mp h₂
    exact ⟨files₁, files₂, hfiles₁, hfiles₂, (Except.ok.inj hend).symm⟩
  · rintro ⟨files₁, files₂, hfiles₁, hfiles₂, rfl⟩
    refine ⟨_, call_edit_eq_ok_iff.mpr ⟨files₁, hfiles₁, rfl⟩, calls_cons.mpr ⟨_, ?_, rfl⟩⟩
    exact call_edit_eq_ok_iff.mpr ⟨files₂, hfiles₂, rfl⟩

theorem Edit.Apart.symm {e e' : Edit} (h : e.Apart e') : e'.Apart e :=
  h.imp Ne.symm fun ⟨hline, hsub, hsub'⟩ => ⟨hline.symm, hsub', hsub⟩

theorem calls_edit_swap {b b' : Builder} {e e' : Edit} (happart : e.Apart e')
    (h : b.calls [e.call, e'.call] = .ok b') : b.calls [e'.call, e.call] = .ok b' := by
  obtain ⟨files₁, files₂, h₁, h₂, rfl⟩ := calls_edit_edit_eq_ok_iff.mp h
  obtain ⟨files₃, h₃, h₂'⟩ := editFile_comm happart h₁ h₂
  exact calls_edit_edit_eq_ok_iff.mpr ⟨files₃, files₂, h₃, h₂', rfl⟩

theorem exists_call_edit_iff {b : Builder} {e : Edit} :
    (∃ b', b.call e.call = .ok b') ↔
      ∃ f piece, b.files.find? (·.path == e.path) = some f ∧ 1 ≤ e.line ∧
        (Text.pieces f.current.toList)[e.line - 1]? = some piece ∧
        e.find.toList <:+: bareLine piece := by
  constructor
  · rintro ⟨b', h⟩
    obtain ⟨files, hfiles, -⟩ := call_edit_eq_ok_iff.mp h
    obtain ⟨before, f, behind, f', hb, hbefore, hpath, hf', -⟩ := editFile_eq_ok_iff.mp hfiles
    obtain ⟨c, hc, hfind, -⟩ := OpenFile.replaceOnLine_eq_ok_iff.mp hf'
    refine ⟨f, _, find?_path_eq_some_iff.mpr ⟨before, behind, hb, hbefore, hpath⟩, hc.number_pos,
      hc.getElem?, ?_⟩
    rwa [hc.bareLine]
  · rintro ⟨f, piece, hf, hline, hpiece, hfind⟩
    obtain ⟨before, behind, hb, hbefore, hpath⟩ := find?_path_eq_some_iff.mp hf
    obtain ⟨c, hc, rfl⟩ := Text.exists_isAt hline hpiece
    rw [hc.bareLine] at hfind
    have hf' : f.replaceOnLine e.line e.find e.replacement =
        .ok (f.withLine c (Text.replace e.find.toList e.replacement.toList c.text)) :=
      OpenFile.replaceOnLine_eq_ok_iff.mpr ⟨c, hc, hfind, rfl⟩
    exact ⟨_, call_edit_eq_ok_iff.mpr
      ⟨_, editFile_eq_ok_iff.mpr ⟨before, f, behind, _, hb, hbefore, hpath, hf', rfl⟩, rfl⟩⟩

/-- **Edits are local, and edits of different lines commute.** An edit is taken exactly if its file
is declared, its line is one of the file's, and what it looks for stands in that line. It replaces
every occurrence there and leaves the rest of the builder alone; the lines above and below are cut
as before. Two edits of different files, or of different lines if neither brings in a line feed, are
taken in one order exactly if they are in the other, with the same builder in the end. -/
theorem edits_local (b : Builder) :
    (∀ e : Edit,
      ((∃ b', b.call e.call = .ok b') ↔
        ∃ f piece, b.files.find? (·.path == e.path) = some f ∧ 1 ≤ e.line ∧
          (Text.pieces f.current.toList)[e.line - 1]? = some piece ∧
          e.find.toList <:+: bareLine piece) ∧
      ∀ b', b.call e.call = .ok b' →
        ∃ before f behind, ∃ c : Cut,
          b.files = before ++ f :: behind ∧ (∀ g ∈ before, g.path ≠ e.path) ∧ f.path = e.path ∧
          c.IsAt f.current.toList e.line ∧
          let new := Text.replace e.find.toList e.replacement.toList c.text
          b' = { b with files := before ++ f.withLine c new :: behind, started := true } ∧
            Text.pieces (f.withLine c new).current.toList =
              c.above ++ Text.pieces (new ++ c.ending) ++ c.below) ∧
    ∀ e e' : Edit, e.Apart e' → ∀ b',
      b.calls [e.call, e'.call] = .ok b' ↔ b.calls [e'.call, e.call] = .ok b' := by
  refine ⟨fun e => ⟨exists_call_edit_iff, ?_⟩, ?_⟩
  · intro b' h
    obtain ⟨files, hfiles, rfl⟩ := call_edit_eq_ok_iff.mp h
    obtain ⟨before, f, behind, f', hb, hbefore, hpath, hf', rfl⟩ := editFile_eq_ok_iff.mp hfiles
    obtain ⟨c, hc, -, rfl⟩ := OpenFile.replaceOnLine_eq_ok_iff.mp hf'
    refine ⟨before, f, behind, c, hb, hbefore, hpath, hc, rfl, ?_⟩
    rw [OpenFile.withLine, String.toList_ofList]
    exact hc.pieces_flatten _
  · intro e e' happart b'
    exact ⟨calls_edit_swap happart, calls_edit_swap happart.symm⟩

/-- The last line, which has no line feed, is emptied, and a text is put between all characters of
the first one. -/
theorem edits_local_two_lines :
    let b : Builder := { name := "u.scn", files := [⟨"a.c", "ab\nc", "ab\nc", false⟩] }
    let emptied : Edit := ⟨"a.c", 2, "c", ""⟩
    let spread : Edit := ⟨"a.c", 1, "", "-"⟩
    (∃ b₁, ∃ c : Cut, b.call emptied.call = .ok b₁ ∧ c.IsAt "ab\nc".toList 2 ∧
      c.below = []) ∧
    ∃ b', b.calls [emptied.call, spread.call] = .ok b' ∧
      b.calls [spread.call, emptied.call] = .ok b' ∧
      b'.files = [⟨"a.c", "ab\nc", "-a-b-\n", true⟩] := by
  intro b emptied spread
  obtain ⟨hlocal, hswap⟩ := edits_local b
  constructor
  · obtain ⟨b₁, h₁⟩ := (hlocal emptied).1.mpr ⟨_, ['c'], rfl, by decide, by decide, by decide⟩
    obtain ⟨before, f, behind, c, hfiles, -, -, hc, -⟩ := (hlocal emptied).2 b₁ h₁
    obtain rfl : f = ⟨"a.c", "ab\nc", "ab\nc", false⟩ := by
      have hmem : f ∈ b.files := by simp [hfiles]
      exact List.mem_singleton.mp hmem
    refine ⟨b₁, c, h₁, hc, ?_⟩
    have hlength := congrArg List.length hc.pieces_eq
    have hnumber := hc.number_eq
    simp [Text.pieces, Cut.pieces] at hlength
    have hline : emptied.line = 2 := rfl
    rw [← List.length_eq_zero_iff]
    omega
  · have happart : emptied.Apart spread := .inr (by decide)
    have hcalls : b.calls [emptied.call, spread.call] =
        .ok { b with files := [⟨"a.c", "ab\nc", "-a-b-\n", true⟩], started := true } := by decide
    exact ⟨_, hcalls, (hswap emptied spread happart _).mp hcalls, rfl⟩

end Scenario

end BuildPlan
