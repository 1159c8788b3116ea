import BuildPlan.Proofs.HeaderTable
import Mathlib.Data.List.Chain

/-!
# Byte values on lines

The values of packed headers are put on lines. Nothing is lost by that: the lines joined by spaces
are the values with commas between them. No line is longer than the width, and none ends before the
next value would make it so (`byteLines_exact`).

The loop carries the line under way. What holds of it is said of the words that are on it already,
and of the lines that are still to come, together (`exists_groups_wrapFrom`).
-/

namespace BuildPlan

namespace Text

/-! ## Filled lines -/

/-- Groups of words fill lines of a width: none is empty, none of several words is too long, and
before each group but the first there was no room for its first word. -/
structure Fills (width : Nat) (groups : List (List (List Char))) : Prop where
  nonempty : ∀ g ∈ groups, g ≠ []
  fits : ∀ g ∈ groups, ([' '].intercalate g).length ≤ width ∨ ∃ w, g = [w]
  full : groups.IsChain fun g next =>
    ∀ w ∈ next.head?, width < ([' '].intercalate g).length + 1 + w.length

theorem intercalate_append {sep : List Char} {ws vs : List (List Char)} (hws : ws ≠ [])
    (hvs : vs ≠ []) :
    sep.intercalate (ws ++ vs) = sep.intercalate ws ++ sep ++ sep.intercalate vs := by
  induction ws with
  | nil => exact absurd rfl hws
  | cons w ws ih =>
    cases ws with
    | nil =>
      rw [List.singleton_append, List.intercalate_cons_of_ne_nil hvs, List.intercalate_singleton]
    | cons w' ws =>
      rw [List.cons_append, List.cons_append, List.intercalate_cons_cons, ← List.cons_append,
        ih (List.cons_ne_nil _ _), List.intercalate_cons_cons]
      simp only [List.append_assoc]

theorem intercalate_eq_nil_iff {ws : List (List Char)} (hws : ∀ w ∈ ws, w ≠ []) :
    [' '].intercalate ws = [] ↔ ws = [] := by
  cases ws with
  | nil => simp
  | cons w ws =>
    have hw : w ≠ [] := hws w List.mem_cons_self
    cases ws <;> simp [hw]

/-- **What a line under way becomes.** Its words and those to come are put in groups, the first of
which goes on with the words that the line has. -/
theorem exists_groups_wrapFrom (width : Nat) {g words : List (List Char)} (hg : g ≠ [])
    (hne : ∀ w ∈ g ++ words, w ≠ [])
    (hfits : ([' '].intercalate g).length ≤ width ∨ ∃ w, g = [w]) :
    ∃ first rest, wrapFrom width ([' '].intercalate g) words =
        (first :: rest).map [' '].intercalate ∧
      (first :: rest).flatten = g ++ words ∧ first.head? = g.head? ∧
        Fills width (first :: rest) := by
  induction words generalizing g with
  | nil =>
    have hline : [' '].intercalate g ≠ [] := by
      rw [List.append_nil] at hne
      exact fun h => hg ((intercalate_eq_nil_iff hne).mp h)
    refine ⟨g, [], ?_, by simp, rfl, ?_⟩
    · rw [wrapFrom, if_neg (by simpa using hline)]
      rfl
    · exact ⟨by simpa using hg, by simpa using hfits, List.isChain_singleton g⟩
  | cons w words ih =>
    have hline : [' '].intercalate g ≠ [] := fun h =>
      hg ((intercalate_eq_nil_iff fun v hv => hne v (List.mem_append_left _ hv)).mp h)
    rw [wrapFrom, if_neg (by simpa using hline)]
    split_ifs with hfull
    · -- the line ends here, and the word starts the next one
      have hrest : ∀ v ∈ [w] ++ words, v ≠ [] := fun v hv => hne v (List.mem_append_right g hv)
      obtain ⟨first, rest, hwrap, hflat, hhead, hfills⟩ :=
        ih (List.cons_ne_nil w []) hrest (.inr ⟨w, rfl⟩)
      rw [List.intercalate_singleton] at hwrap
      refine ⟨g, first :: rest, ?_, ?_, rfl, ?_, ?_, ?_⟩
      · rw [hwrap]
        rfl
      · rw [List.flatten_cons, hflat, List.singleton_append]
      · exact List.forall_mem_cons.mpr ⟨hg, hfills.nonempty⟩
      · exact List.forall_mem_cons.mpr ⟨hfits, hfills.fits⟩
      · refine List.isChain_cons_cons.mpr ⟨fun v hv => ?_, hfills.full⟩
        rw [hhead, List.head?_cons, Option.mem_some_iff] at hv
        rwa [← hv]
    · -- the word goes on the line
      have hjoined : [' '].intercalate g ++ ' ' :: w = [' '].intercalate (g ++ [w]) := by
        rw [intercalate_append hg (List.cons_ne_nil w []), List.intercalate_singleton,
          List.append_assoc, List.singleton_append]
      have hshort : ([' '].intercalate (g ++ [w])).length ≤ width := by
        rw [← hjoined, List.length_append, List.length_cons]
        omega
      have hall : ∀ v ∈ (g ++ [w]) ++ words, v ≠ [] := by
        rwa [List.append_assoc, List.singleton_append]
      obtain ⟨first, rest, hwrap, hflat, hhead, hfills⟩ := ih (by simp) hall (.inl hshort)
      rw [← hjoined] at hwrap
      refine ⟨first, rest, hwrap, ?_, ?_, hfills⟩
      · rw [hflat, List.append_assoc, List.singleton_append]
      · rw [hhead, List.head?_append_of_ne_nil g hg]

/-- **Words are put on lines in groups**, in order. -/
theorem exists_groups_wrap (width : Nat) {words : List (List Char)} (hne : ∀ w ∈ words, w ≠ []) :
    ∃ groups, wrap width words = groups.map [' '].intercalate ∧ groups.flatten = words ∧
      Fills width groups := by
  cases words with
  | nil => exact ⟨[], rfl, rfl, by simp, by simp, List.isChain_nil⟩
  | cons w words =>
    obtain ⟨first, rest, hwrap, hflat, -, hfills⟩ :=
      exists_groups_wrapFrom width (List.cons_ne_nil w []) hne (.inr ⟨w, rfl⟩)
    rw [List.intercalate_singleton] at hwrap
    exact ⟨first :: rest, hwrap, hflat, hfills⟩

theorem intercalate_map_intercalate {groups : List (List (List Char))}
    (h : ∀ g ∈ groups, g ≠ []) :
    [' '].intercalate (groups.map [' '].intercalate) = [' '].intercalate groups.flatten := by
  induction groups with
  | nil => rfl
  | cons g groups ih =>
    obtain ⟨hg, hgroups⟩ := List.forall_mem_cons.mp h
    cases groups with
    | nil => simp
    | cons g' groups =>
      have hflat : (g' :: groups).flatten ≠ [] := by
        have hg' : g' ≠ [] := hgroups g' List.mem_cons_self
        simp [hg']
      rw [List.map_cons, List.map_cons, List.intercalate_cons_cons, ← List.map_cons, ih hgroups,
        List.flatten_cons (l := g), intercalate_append hg hflat]

theorem toList_joinWith (s : String) (items : List String) :
    (joinWith s items).toList = s.toList.intercalate (items.map String.toList) := by
  fun_induction joinWith s items with
  | case1 => rfl
  | case2 t => simp
  | case3 t rest hrest ih =>
    have hne : rest.map String.toList ≠ [] := by simpa using hrest
    rw [String.toList_append, String.toList_append, ih, List.map_cons,
      List.intercalate_cons_of_ne_nil hne]

/-! ## Lines of words without spaces -/

/-- What stands on a line up to the first space. -/
def firstWord (line : List Char) : List Char :=
  line.takeWhile (· != ' ')

section Spaceless

variable {g : List (List Char)} (hg : g ≠ []) (h : ∀ w ∈ g, w ≠ [] ∧ ' ' ∉ w)

include hg h

theorem firstWord_intercalate : g.head? = some (firstWord ([' '].intercalate g)) := by
  obtain ⟨w, ws, rfl⟩ := List.exists_cons_of_ne_nil hg
  have hw : ∀ c ∈ w, (c != ' ') = true := by
    intro c hc
    rw [bne_iff_ne]
    rintro rfl
    exact (h w List.mem_cons_self).2 hc
  rw [List.head?_cons, firstWord]
  cases ws with
  | nil => rw [List.intercalate_singleton, List.takeWhile_eq_self_iff.mpr hw]
  | cons v ws =>
    rw [List.intercalate_cons_cons, List.append_assoc, List.takeWhile_append_of_pos hw,
      List.singleton_append, List.takeWhile_cons_of_neg (by decide), List.append_nil]

theorem head?_intercalate_ne : ([' '].intercalate g).head? ≠ some ' ' := by
  intro hhead
  have hfirst := firstWord_intercalate hg h
  obtain ⟨rest, hrest⟩ := List.head?_eq_some_iff.mp hhead
  rw [hrest, firstWord, List.takeWhile_cons_of_neg (by decide)] at hfirst
  exact (h [] (List.mem_of_mem_head? hfirst)).1 rfl

theorem getLast?_intercalate_ne : ([' '].intercalate g).getLast? ≠ some ' ' := by
  intro hlast
  obtain ⟨front, last, rfl⟩ := List.eq_nil_or_concat g |>.resolve_left hg
  rw [List.concat_eq_append] at h hlast
  obtain ⟨hne, hspace⟩ := h last (by simp)
  have hend : ∃ before, [' '].intercalate (front ++ [last]) = before ++ last := by
    by_cases hfront : front = []
    · exact ⟨[], by simp [hfront]⟩
    · exact ⟨_, by rw [intercalate_append hfront (List.cons_ne_nil _ _),
        List.intercalate_singleton]⟩
  obtain ⟨before, hend⟩ := hend
  rw [hend, List.getLast?_append_of_ne_nil before hne] at hlast
  exact hspace (List.mem_of_getLast? hlast)

end Spaceless

end Text

namespace PackedHeaders

open Text (Fills firstWord joinWith)

/-! ## Values -/

/-- The pieces of a text between each comma that a space follows and the next. -/
def valuePieces : List Char → List (List Char)
  | [] => [[]]
  | ',' :: ' ' :: cs => [] :: valuePieces cs
  | c :: cs =>
    match valuePieces cs with
    | [] => [[c]]
    | p :: ps => (c :: p) :: ps

theorem valuePieces_of_notMem {v : List Char} (h : ',' ∉ v) : valuePieces v = [v] := by
  induction v with
  | nil => rfl
  | cons c v ih =>
    obtain ⟨hc, hv⟩ := not_or.mp fun hmem => h (List.mem_cons.mpr hmem)
    rw [valuePieces, ih hv]
    rintro cs rfl
    exact absurd rfl hc

theorem valuePieces_append {v : List Char} (h : ',' ∉ v) (rest : List Char) :
    valuePieces (v ++ ',' :: ' ' :: rest) = v :: valuePieces rest := by
  induction v with
  | nil => rfl
  | cons c v ih =>
    obtain ⟨hc, hv⟩ := not_or.mp fun hmem => h (List.mem_cons.mpr hmem)
    rw [List.cons_append, valuePieces, ih hv]
    rintro cs rfl
    exact absurd rfl hc

theorem valuePieces_intercalate {vs : List (List Char)} (hne : vs ≠ []) (h : ∀ v ∈ vs, ',' ∉ v) :
    valuePieces ([',', ' '].intercalate vs) = vs := by
  induction vs with
  | nil => exact absurd rfl hne
  | cons v vs ih =>
    obtain ⟨hv, hvs⟩ := List.forall_mem_cons.mp h
    cases vs with
    | nil => rw [List.intercalate_singleton, valuePieces_of_notMem hv]
    | cons v' vs =>
      rw [List.intercalate_cons_cons, List.append_assoc]
      exact (valuePieces_append hv _).trans (congrArg _ (ih (List.cons_ne_nil _ _) hvs))

/-- The values on lines: the pieces of the lines joined by spaces; none where there is no line. -/
def valuesOn : List String → List String
  | [] => []
  | lines => (valuePieces (joinWith " " lines).toList).map String.ofList

def decimals (bytes : Bytes) : List String :=
  bytes.map fun b => Nat.repr b.toNat

theorem toList_decimals (bytes : Bytes) :
    (decimals bytes).map String.toList = bytes.map fun b => Nat.toDigits 10 b.toNat := by
  simp [decimals, Function.comp_def]

theorem intercalate_byteWords (bytes : Bytes) :
    [' '].intercalate (byteWords bytes) =
      [',', ' '].intercalate (bytes.map fun b => Nat.toDigits 10 b.toNat) := by
  fun_induction byteWords bytes with
  | case1 => rfl
  | case2 b => rfl
  | case3 b c rest ih =>
    have hne : byteWords (c :: rest) ≠ [] := by cases rest <;> exact List.cons_ne_nil _ _
    rw [List.intercalate_cons_of_ne_nil hne, ih]
    simp

theorem byteWords_eq_nil_iff {bytes : Bytes} : byteWords bytes = [] ↔ bytes = [] := by
  fun_cases byteWords bytes <;> simp

theorem spec_of_mem_byteWords {bytes : Bytes} {w : List Char} (hw : w ∈ byteWords bytes) :
    w ≠ [] ∧ ' ' ∉ w ∧ w.length ≤ 4 := by
  have hlength : ∀ b : UInt8, (Nat.toDigits 10 b.toNat).length ≤ 3 := fun b =>
    (Nat.length_toDigits_le_iff (by decide) (by decide)).mpr (by have := b.toNat_lt; omega)
  refine ⟨?_, fun hspace => ?_, ?_⟩
  · fun_induction byteWords bytes with
    | case1 => cases hw
    | case2 b => exact List.mem_singleton.mp hw ▸ Nat.toDigits_ne_nil
    | case3 b c rest ih =>
      rcases List.mem_cons.mp hw with rfl | hw
      · simp
      · exact ih hw
  · rcases mem_byteWords hw hspace with h | h
    · exact absurd h (by decide)
    · exact absurd h (by decide)
  · fun_induction byteWords bytes with
    | case1 => cases hw
    | case2 b => exact List.mem_singleton.mp hw ▸ (hlength b).trans (by decide)
    | case3 b c rest ih =>
      rcases List.mem_cons.mp hw with rfl | hw
      · rw [List.length_append, List.length_singleton]
        have := hlength b
        omega
      · exact ih hw

/-! ## Lines of values -/

theorem exists_groups_byteLines (bytes : Bytes) :
    ∃ groups, byteLines bytes = groups.map (fun g => String.ofList ([' '].intercalate g)) ∧
      groups.flatten = byteWords bytes ∧ Fills lineWidth groups := by
  obtain ⟨groups, hwrap, hflat, hfills⟩ := Text.exists_groups_wrap lineWidth
    fun w (hw : w ∈ byteWords bytes) => (spec_of_mem_byteWords hw).1
  refine ⟨groups, ?_, hflat, hfills⟩
  rw [byteLines, hwrap, List.map_map]
  rfl

theorem byteLines_eq_nil_iff {bytes : Bytes} : byteLines bytes = [] ↔ bytes = [] := by
  obtain ⟨groups, hlines, hflat, hfills⟩ := exists_groups_byteLines bytes
  rw [hlines, List.map_eq_nil_iff, ← byteWords_eq_nil_iff, ← hflat]
  constructor
  · rintro rfl
    rfl
  · intro h
    rw [List.eq_nil_iff_forall_not_mem]
    exact fun g hg => hfills.nonempty g hg (List.flatten_eq_nil_iff.mp h g hg)

theorem joinWith_byteLines (bytes : Bytes) :
    joinWith " " (byteLines bytes) = joinWith ", " (decimals bytes) := by
  obtain ⟨groups, hlines, hflat, hfills⟩ := exists_groups_byteLines bytes
  have hgroups : (byteLines bytes).map String.toList = groups.map [' '].intercalate := by
    simp [hlines, Function.comp_def]
  rw [← String.toList_inj, Text.toList_joinWith, Text.toList_joinWith, hgroups, toList_decimals]
  show [' '].intercalate _ = [',', ' '].intercalate _
  rw [Text.intercalate_map_intercalate hfills.nonempty, hflat, intercalate_byteWords]

theorem valuesOn_byteLines (bytes : Bytes) : valuesOn (byteLines bytes) = decimals bytes := by
  by_cases hbytes : bytes = []
  · rw [byteLines_eq_nil_iff.mpr hbytes, hbytes]
    rfl
  · have hvalues : decimals bytes ≠ [] := by simpa [decimals] using hbytes
    have hpieces : valuePieces (joinWith ", " (decimals bytes)).toList =
        (decimals bytes).map String.toList := by
      rw [Text.toList_joinWith]
      refine valuePieces_intercalate (by simpa using hvalues) fun v hv => ?_
      rw [toList_decimals] at hv
      obtain ⟨b, -, rfl⟩ := List.mem_map.mp hv
      exact Text.notMem_toDigits (by decide) _
    obtain ⟨line, lines, hlines⟩ :=
      List.exists_cons_of_ne_nil fun h => hbytes (byteLines_eq_nil_iff.mp h)
    have hjoined := joinWith_byteLines bytes
    rw [hlines] at hjoined
    rw [hlines, valuesOn, hjoined, hpieces]
    · simp [Function.comp_def]
    · exact List.cons_ne_nil line lines

theorem spec_of_mem_byteLines {bytes : Bytes} {line : String} (hline : line ∈ byteLines bytes) :
    0 < line.length ∧ line.length ≤ lineWidth ∧ line.toList.head? ≠ some ' ' ∧
      line.toList.getLast? ≠ some ' ' := by
  obtain ⟨groups, hlines, hflat, hfills⟩ := exists_groups_byteLines bytes
  rw [hlines] at hline
  obtain ⟨g, hg, rfl⟩ := List.mem_map.mp hline
  have hwords : ∀ w ∈ g, w ≠ [] ∧ ' ' ∉ w ∧ w.length ≤ 4 := fun w hw =>
    spec_of_mem_byteWords (hflat ▸ List.mem_flatten_of_mem hg hw)
  have hshape : ∀ w ∈ g, w ≠ [] ∧ ' ' ∉ w := fun w hw => ⟨(hwords w hw).1, (hwords w hw).2.1⟩
  have hne := hfills.nonempty g hg
  rw [String.length_ofList, String.toList_ofList]
  refine ⟨?_, ?_, Text.head?_intercalate_ne hne hshape, Text.getLast?_intercalate_ne hne hshape⟩
  · rw [List.length_pos_iff]
    exact fun h => hne ((Text.intercalate_eq_nil_iff fun w hw => (hwords w hw).1).mp h)
  · rcases hfills.fits g hg with hfits | ⟨w, rfl⟩
    · exact hfits
    · rw [List.intercalate_singleton]
      exact (hwords w List.mem_cons_self).2.2.trans (by decide)

theorem isChain_byteLines (bytes : Bytes) : (byteLines bytes).IsChain fun line next =>
    lineWidth < line.length + 1 + (firstWord next.toList).length := by
  obtain ⟨groups, hlines, hflat, hfills⟩ := exists_groups_byteLines bytes
  rw [hlines, List.isChain_map]
  refine hfills.full.imp_of_mem_imp fun g next _ hnext hfull => ?_
  have hshape : ∀ w ∈ next, w ≠ [] ∧ ' ' ∉ w := fun w hw =>
    have hspec := spec_of_mem_byteWords (hflat ▸ List.mem_flatten_of_mem hnext hw)
    ⟨hspec.1, hspec.2.1⟩
  rw [String.length_ofList, String.toList_ofList]
  exact hfull _ (Text.firstWord_intercalate (hfills.nonempty next hnext) hshape)

/-- **The byte values are on the lines, all of them and within the width.** No line is empty, has
more than 78 characters, or a space at either end, and there are none only if there are no bytes.
Joined by spaces the lines are the decimal values of the bytes, in order, with a comma behind each
but the last, and so are they found again between the commas. A line ends only where the first word
of the next one, a value with its comma, would pass the width. And in the file that is written, in
front of these lines, stands an array with a place for each value. -/
theorem byteLines_exact (h : PackedHeaders) :
    (byteLines h.bytes = [] ↔ h.bytes = []) ∧
    (∀ line ∈ byteLines h.bytes, 0 < line.length ∧ line.length ≤ 78 ∧
      line.toList.head? ≠ some ' ' ∧ line.toList.getLast? ≠ some ' ') ∧
    joinWith " " (byteLines h.bytes) = joinWith ", " (decimals h.bytes) ∧
    valuesOn (byteLines h.bytes) = decimals h.bytes ∧
    ((byteLines h.bytes).IsChain fun line next =>
      78 < line.length + 1 + (firstWord next.toList).length) ∧
    ∃ before, h.render = before ++ "static unsigned char compiler_include_blob[" ++
      Nat.repr (valuesOn (byteLines h.bytes)).length ++ "] = \x7b\n" ++
        Text.unlines (byteLines h.bytes) ++ "\x7d;\n" := by
  have hlength : (decimals h.bytes).length = h.bytes.length := List.length_map _
  refine ⟨byteLines_eq_nil_iff, fun line hline => spec_of_mem_byteLines hline,
    joinWith_byteLines h.bytes, valuesOn_byteLines h.bytes, isChain_byteLines h.bytes,
    headText h.entries.length ++ (Text.unlines (h.entries.map row) ++ "\x7d;\n"), ?_⟩
  have hblob : blobText h.bytes = "static unsigned char compiler_include_blob[" ++
      (Nat.repr h.bytes.length ++ ("] = \x7b\n" ++ (Text.unlines (byteLines h.bytes) ++
        "\x7d;\n"))) := rfl
  -- `rw` would go on to compare the texts by evaluating them
  rewrite [valuesOn_byteLines, hlength, render_eq, hblob]
  simp only [String.append_assoc]

end PackedHeaders

end BuildPlan
