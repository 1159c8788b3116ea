import BuildPlan.Proofs.Path
import BuildPlan.Text.Line
import BuildPlan.Text.Search
import BuildPlan.Text.Split
import Mathlib.Tactic.SplitIfs

/-!
# The lines of texts that are put together

A text is cut into lines at its line feeds, and a carriage return at the end of a line does not
belong to it. So texts that were written line by line have these lines, but for such carriage
returns (`lines_unlines`); and a text that ends with a line feed is written line by line
(`exists_unlines`). Two texts have the same lines exactly if they differ in line endings alone
(`lines_eq_lines_iff`).
-/

namespace BuildPlan.Text

theorem unlines_append (lines rest : List String) :
    unlines (lines ++ rest) = unlines lines ++ unlines rest := by
  induction lines with
  | nil => rw [List.nil_append, unlines, String.empty_append]
  | cons line lines ih =>
    rw [List.cons_append, unlines, unlines, ih, String.append_assoc, String.append_assoc,
      String.append_assoc]

/-! ## Line endings -/

theorem stripEnd?_eq_some_iff {last : Char} {s t : List Char} :
    stripEnd? last s = some t ↔ s = t ++ [last] := by
  induction s generalizing t with
  | nil => simp [stripEnd?]
  | cons c s ih =>
    cases s with
    | nil =>
      rw [stripEnd?]
      cases t with
      | nil => simp
      | cons d t =>
        split_ifs <;> simp
    | cons d s =>
      rw [stripEnd?, Option.map_eq_some_iff]
      cases t with
      | nil => simp
      | cons e t =>
        simp only [List.cons_append, List.cons.injEq]
        constructor
        · rintro ⟨t', ht', rfl, rfl⟩
          exact ⟨rfl, ih.mp ht'⟩
        · rintro ⟨rfl, h⟩
          exact ⟨t, ih.mpr h, rfl, rfl⟩

theorem stripEnd?_of_notMem {last : Char} {s : List Char} (h : last ∉ s) :
    stripEnd? last s = none := by
  rw [Option.eq_none_iff_forall_ne_some]
  intro t ht
  rw [stripEnd?_eq_some_iff.mp ht] at h
  simp at h

theorem stripEnd?_concat (last : Char) (s : List Char) : stripEnd? last (s ++ [last]) = some s :=
  stripEnd?_eq_some_iff.mpr rfl

/-- A line without a carriage return at its end. -/
def dropReturn (l : List Char) : List Char :=
  (stripEnd? '\r' l).getD l

theorem dropReturn_of_ne {l : List Char} (h : l.getLast? ≠ some '\r') : dropReturn l = l := by
  rw [dropReturn]
  cases hl : stripEnd? '\r' l with
  | none => rfl
  | some t =>
    rw [stripEnd?_eq_some_iff.mp hl, List.getLast?_concat] at h
    exact absurd rfl h

theorem lineOfPiece_newline (l : List Char) : lineOfPiece (l ++ ['\n']) = dropReturn l := by
  rw [lineOfPiece, stripEnd?_concat]
  rfl

/-! ## Lines one after the other -/

theorem pieces_append_newline {l : List Char} (h : '\n' ∉ l) (rest : List Char) :
    pieces (l ++ '\n' :: rest) = (l ++ ['\n']) :: pieces rest := by
  induction l with
  | nil => rfl
  | cons c l ih =>
    have hc : c ≠ '\n' := fun hc => h (hc ▸ List.mem_cons_self)
    rw [List.cons_append, pieces, if_neg hc, ih fun hl => h (List.mem_cons_of_mem c hl)]
    rfl

theorem toList_unlines (ls : List String) :
    (unlines ls).toList = ls.flatMap fun l => l.toList ++ ['\n'] := by
  induction ls with
  | nil => rfl
  | cons l ls ih =>
    rw [unlines, String.toList_append, String.toList_append, ih, List.flatMap_cons]
    rfl

theorem split_unlines {ls : List String} (h : ∀ l ∈ ls, '\n' ∉ l.toList) :
    split '\n' (unlines ls).toList = ls.map String.toList ++ [[]] := by
  rw [toList_unlines]
  induction ls with
  | nil => rfl
  | cons l ls ih =>
    obtain ⟨hl, hls⟩ := List.forall_mem_cons.mp h
    rw [List.flatMap_cons, List.append_assoc, List.singleton_append, split_append_sep,
      split_of_notMem hl, ih hls, List.map_cons, List.singleton_append, List.cons_append]

theorem newline_notMem_joinWith {items : List String} (h : ∀ t ∈ items, '\n' ∉ t.toList) :
    '\n' ∉ (joinWith " " items).toList := by
  fun_induction joinWith " " items with
  | case1 => simp
  | case2 t => exact h t List.mem_cons_self
  | case3 t rest hrest ih =>
    simpa [h t List.mem_cons_self] using ih fun t' ht' => h t' (List.mem_cons_of_mem t ht')

/-- **Lines that were written are read**, but for carriage returns at their ends. -/
theorem lines_unlines_append {ls : List String} (h : ∀ l ∈ ls, '\n' ∉ l.toList) (rest : List Char) :
    lines ((unlines ls).toList ++ rest) = ls.map (fun l => dropReturn l.toList) ++ lines rest := by
  rw [toList_unlines]
  induction ls with
  | nil => rfl
  | cons l ls ih =>
    obtain ⟨hl, hls⟩ := List.forall_mem_cons.mp h
    rw [List.flatMap_cons, List.append_assoc, List.append_assoc, List.singleton_append, lines,
      pieces_append_newline hl, List.map_cons, lineOfPiece_newline, ← lines, ih hls, List.map_cons,
      List.cons_append]

theorem lines_unlines {ls : List String} (h : ∀ l ∈ ls, '\n' ∉ l.toList) :
    lines (unlines ls).toList = ls.map fun l => dropReturn l.toList := by
  have happend := lines_unlines_append h []
  rwa [List.append_nil, show lines [] = [] from rfl, List.append_nil] at happend

theorem exists_unlines_concat (t : List Char) :
    ∃ ls : List String, (∀ l ∈ ls, '\n' ∉ l.toList) ∧ (unlines ls).toList = t ++ ['\n'] := by
  induction t with
  | nil => exact ⟨[""], by simp, by decide⟩
  | cons c t ih =>
    obtain ⟨ls, hls, htext⟩ := ih
    by_cases hc : c = '\n'
    · refine ⟨"" :: ls, List.forall_mem_cons.mpr ⟨by simp, hls⟩, ?_⟩
      rw [unlines, String.toList_append, htext, hc]
      rfl
    · -- the character belongs to the first line
      cases ls with
      | nil => exact absurd htext (by simp [unlines])
      | cons l ls =>
        obtain ⟨hl, hrest⟩ := List.forall_mem_cons.mp hls
        refine ⟨String.ofList (c :: l.toList) :: ls, List.forall_mem_cons.mpr ⟨?_, hrest⟩, ?_⟩
        · simpa [Ne.symm hc] using hl
        · rw [unlines, String.toList_append, String.toList_append] at htext ⊢
          rw [String.toList_ofList, List.cons_append, List.cons_append, htext, List.cons_append]

theorem exists_unlines {s : String} (h : s = "" ∨ s.toList.getLast? = some '\n') :
    ∃ ls : List String, (∀ l ∈ ls, '\n' ∉ l.toList) ∧ unlines ls = s := by
  rcases h with rfl | h
  · exact ⟨[], by simp, rfl⟩
  · obtain ⟨t, ht⟩ := List.getLast?_eq_some_iff.mp h
    obtain ⟨ls, hls, htext⟩ := exists_unlines_concat t
    exact ⟨ls, hls, String.toList_inj.mp (htext.trans ht.symm)⟩

/-- Where no carriage return stands in front of a line feed, no line ends with one. -/
theorem dropReturn_of_unlines {ls : List String}
    (h : ¬ ['\r', '\n'] <:+: (unlines ls).toList) {l : String} (hl : l ∈ ls) :
    dropReturn l.toList = l.toList := by
  refine dropReturn_of_ne fun hlast => h ?_
  obtain ⟨t, ht⟩ := List.getLast?_eq_some_iff.mp hlast
  obtain ⟨before, after, rfl⟩ := List.append_of_mem hl
  refine ⟨(unlines before).toList ++ t, (unlines after).toList, ?_⟩
  rw [unlines_append, unlines, String.toList_append, String.toList_append, String.toList_append, ht]
  simp

/-! ## Texts with the same lines -/

/-- A text is a line that ends with a line feed in front of a text, or has no line feed. -/
theorem line_induction {P : List Char → Prop} (last : ∀ l, '\n' ∉ l → P l)
    (line : ∀ l rest, '\n' ∉ l → P rest → P (l ++ '\n' :: rest)) (s : List Char) : P s := by
  by_cases h : '\n' ∈ s
  · obtain ⟨l, rest, hs, hl⟩ := List.eq_append_cons_of_mem h
    rw [hs]
    exact line l rest hl (line_induction last line rest)
  · exact last s h
termination_by s.length
decreasing_by
  rw [hs, List.length_append, List.length_cons]
  omega

theorem lines_append_newline {l : List Char} (h : '\n' ∉ l) (rest : List Char) :
    lines (l ++ '\n' :: rest) = dropReturn l :: lines rest := by
  rw [lines, pieces_append_newline h, List.map_cons, lineOfPiece_newline, lines]

theorem pieces_of_notMem {l : List Char} (hne : l ≠ []) (h : '\n' ∉ l) : pieces l = [l] := by
  induction l with
  | nil => exact absurd rfl hne
  | cons c l ih =>
    obtain ⟨hc, hl⟩ := not_or.mp fun hmem => h (List.mem_cons.mpr hmem)
    rw [pieces, if_neg (Ne.symm hc)]
    cases l with
    | nil => rfl
    | cons d l => rw [ih (List.cons_ne_nil d l) hl]

theorem pieces_append {a : List Char} (ha : a = [] ∨ a.getLast? = some '\n') (b : List Char) :
    pieces (a ++ b) = pieces a ++ pieces b := by
  induction a using line_induction with
  | last l hl =>
    rcases ha with rfl | hlast
    · rfl
    · exact absurd (List.mem_of_getLast? hlast) hl
  | line l rest hl ih =>
    have hrest : rest = [] ∨ rest.getLast? = some '\n' := by
      cases rest with
      | nil => exact .inl rfl
      | cons c rest =>
        rw [List.getLast?_append_cons, List.getLast?_cons_cons] at ha
        exact .inr (ha.resolve_left (by simp))
    rw [List.append_assoc, List.cons_append, pieces_append_newline hl, pieces_append_newline hl,
      ih hrest, List.cons_append]

theorem lines_append {a : List Char} (ha : a = [] ∨ a.getLast? = some '\n') (b : List Char) :
    lines (a ++ b) = lines a ++ lines b := by
  rw [lines, pieces_append ha, List.map_append, lines, lines]

theorem flatten_pieces (s : List Char) : (pieces s).flatten = s := by
  induction s using line_induction with
  | last l hl =>
    by_cases hne : l = []
    · subst hne
      rfl
    · rw [pieces_of_notMem hne hl, List.flatten_singleton]
  | line l rest hl ih =>
    rw [pieces_append_newline hl, List.flatten_cons, ih, List.append_assoc, List.singleton_append]

theorem pieces_flatten_take (s : List Char) (k : Nat) :
    pieces ((pieces s).take k).flatten = (pieces s).take k := by
  induction s using line_induction generalizing k with
  | last l hl =>
    cases k with
    | zero => rfl
    | succ k =>
      by_cases hne : l = []
      · subst hne
        rfl
      · rw [pieces_of_notMem hne hl, List.take_succ_cons, List.take_nil, List.flatten_singleton,
          pieces_of_notMem hne hl]
  | line l rest hl ih =>
    cases k with
    | zero => rfl
    | succ k =>
      rw [pieces_append_newline hl, List.take_succ_cons, List.flatten_cons, List.append_assoc,
        List.singleton_append, pieces_append_newline hl, ih]

theorem lines_of_notMem {l : List Char} (hne : l ≠ []) (h : '\n' ∉ l) : lines l = [l] := by
  rw [lines, pieces_of_notMem hne h, List.map_singleton, lineOfPiece, stripEnd?_of_notMem h]

theorem mem_of_mem_dropReturn {l : List Char} {c : Char} (h : c ∈ dropReturn l) : c ∈ l := by
  rw [dropReturn] at h
  cases hl : stripEnd? '\r' l with
  | none => rwa [hl] at h
  | some t =>
    rw [hl] at h
    rw [stripEnd?_eq_some_iff.mp hl]
    exact List.mem_append_left _ h

theorem newline_notMem_of_mem_lines {s l : List Char} (h : l ∈ lines s) : '\n' ∉ l := by
  induction s using line_induction with
  | last t ht =>
    by_cases hne : t = []
    · subst hne
      cases h
    · rw [lines_of_notMem hne ht, List.mem_singleton] at h
      exact h ▸ ht
  | line t rest ht ih =>
    rw [lines_append_newline ht, List.mem_cons] at h
    rcases h with rfl | h
    · exact fun hmem => ht (mem_of_mem_dropReturn hmem)
    · exact ih h

/-- A text with line feeds alone between lines. -/
def feedsAlone (s : List Char) : List Char := replace ['\r', '\n'] ['\n'] s

theorem feedsAlone_eq (s : List Char) :
    feedsAlone s = replaceFrom ['\r', '\n'] ['\n'] 0 s := rfl

/-- A text with a line feed behind a last line that has none. -/
def endLastLine (s : List Char) : List Char :=
  if s = [] ∨ s.getLast? = some '\n' then s else s ++ ['\n']

theorem endLastLine_append_newline (l rest : List Char) :
    endLastLine (l ++ '\n' :: rest) = l ++ '\n' :: endLastLine rest := by
  cases rest with
  | nil => simp [endLastLine]
  | cons c rest =>
    have hlast : (l ++ '\n' :: c :: rest).getLast? = (c :: rest).getLast? := by
      rw [List.getLast?_append_cons, List.getLast?_cons_cons]
    rw [endLastLine, endLastLine, hlast]
    split_ifs <;> simp_all

theorem feedsAlone_append_newline {l : List Char} (h : '\n' ∉ l) (rest : List Char) :
    feedsAlone (l ++ '\n' :: rest) = dropReturn l ++ '\n' :: feedsAlone rest := by
  rw [feedsAlone_eq, feedsAlone_eq]
  induction l with
  | nil => rfl
  | cons c l ih =>
    obtain ⟨-, hl⟩ := not_or.mp fun hmem => h (List.mem_cons.mpr hmem)
    cases l with
    | nil =>
      by_cases hc : c = '\r'
      · subst hc
        rfl
      · have hend : dropReturn [c] = [c] := dropReturn_of_ne (by simpa using hc)
        rw [hend, List.singleton_append, replaceFrom, if_neg (by simp [Ne.symm hc])]
        rfl
    | cons d l =>
      have hd : d ≠ '\n' := fun hd => hl (hd ▸ List.mem_cons_self)
      have hend : dropReturn (c :: d :: l) = c :: dropReturn (d :: l) := by
        rw [dropReturn, dropReturn, stripEnd?]
        cases stripEnd? '\r' (d :: l) <;> rfl
      rw [List.cons_append, replaceFrom, if_neg (by simp [Ne.symm hd]), ih hl, hend,
        List.cons_append]

theorem feedsAlone_of_notMem {l : List Char} (h : '\n' ∉ l) : feedsAlone l = l := by
  rw [feedsAlone_eq]
  induction l with
  | nil => rfl
  | cons c l ih =>
    have hno : ['\r', '\n'].isPrefixOf (c :: l) = false := by
      rw [Bool.eq_false_iff]
      exact fun hprefix => h ((List.isPrefixOf_iff_prefix.mp hprefix).subset (by simp))
    rw [replaceFrom, hno, ih fun hmem => h (List.mem_cons_of_mem c hmem)]
    rfl

/-- **The lines of a text**, each with a line feed, are the text up to its line endings. -/
theorem unlines_lines (s : List Char) :
    (unlines ((lines s).map String.ofList)).toList = endLastLine (feedsAlone s) := by
  induction s using line_induction with
  | last l hl =>
    rw [feedsAlone_of_notMem hl]
    by_cases hne : l = []
    · subst hne
      rfl
    · have hlast : l.getLast? ≠ some '\n' := fun hlast => hl (List.mem_of_getLast? hlast)
      rw [lines_of_notMem hne hl, endLastLine, if_neg (by simp [hne, hlast])]
      simp [toList_unlines]
  | line l rest hl ih =>
    rw [lines_append_newline hl, feedsAlone_append_newline hl, endLastLine_append_newline, ← ih]
    simp [toList_unlines]

/-- **Texts have the same lines** exactly if they differ in line endings alone. -/
theorem lines_eq_lines_iff {s t : List Char} :
    lines s = lines t ↔ endLastLine (feedsAlone s) = endLastLine (feedsAlone t) := by
  constructor
  · intro h
    rw [← unlines_lines, ← unlines_lines, h]
  · intro h
    have hsplit : ∀ u, split '\n' (endLastLine (feedsAlone u)) = lines u ++ [[]] := by
      intro u
      rw [← unlines_lines, split_unlines, List.map_map]
      · simp [Function.comp_def]
      · intro l hl
        obtain ⟨line, hline, rfl⟩ := List.mem_map.mp hl
        rw [String.toList_ofList]
        exact newline_notMem_of_mem_lines hline
    exact List.append_cancel_right ((hsplit s).symm.trans ((congrArg _ h).trans (hsplit t)))

end BuildPlan.Text
