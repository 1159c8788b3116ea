import BuildPlan.Proofs.Bytes
import BuildPlan.Proofs.Lines
import BuildPlan.Scenario.Words
import BuildPlan.Text.Split
import Mathlib.Tactic.SplitIfs

/-!
# Reading words that were written

Words that are written on one line, with or without quotes, are read back (`wordsOf_writeLine`).
-/

namespace BuildPlan.Scenario

open Text (isBlank)

/-! ## Writing words -/

def quoteChar : Char → List Char
  | '"' => ['\\', '"']
  | '\\' => ['\\', '\\']
  | '\n' => ['\\', 'n']
  | '\t' => ['\\', 't']
  | c => [c]

def quoteWord (w : String) : String :=
  String.ofList ('"' :: w.toList.flatMap quoteChar ++ ['"'])

/-- Whether a word is read as it stands. -/
def canBeBare (w : String) : Bool :=
  w.toList != [] && w.toList.all (!isBlank ·) && w.toList.head? != some '"'

/-- A word as it is written: between quotes, unless it shall be and can be bare. -/
def writeWord (bare : String → Bool) (w : String) : String :=
  if bare w && canBeBare w then w else quoteWord w

/-- A command and its arguments on a line. -/
def writeLine (bare : String → Bool) (command : String) (args : List String) : String :=
  Text.joinWith " " (command :: args.map (writeWord bare))

/-! ## Reading a word -/

theorem wordsFrom_bare {cs : List Char} (h : ∀ c ∈ cs, isBlank c = false) (acc rest : List Char) :
    wordsFrom (.bare acc) (cs ++ rest) = wordsFrom (.bare (cs.reverse ++ acc)) rest := by
  induction cs generalizing acc with
  | nil => rfl
  | cons c cs ih =>
    obtain ⟨hc, hcs⟩ := List.forall_mem_cons.mp h
    rw [List.cons_append, wordsFrom, hc, if_neg Bool.false_ne_true, ih hcs, List.reverse_cons,
      List.append_assoc, List.singleton_append]

theorem wordsFrom_quoteChar (c : Char) (acc rest : List Char) :
    wordsFrom (.quoted acc) (quoteChar c ++ rest) = wordsFrom (.quoted (c :: acc)) rest := by
  unfold quoteChar
  split
  · rfl
  · rfl
  · rfl
  · rfl
  · rename_i hquote hslash _ _
    rw [List.singleton_append, wordsFrom, if_neg hquote, if_neg hslash]

theorem wordsFrom_quoted (cs acc rest : List Char) :
    wordsFrom (.quoted acc) (cs.flatMap quoteChar ++ rest) =
      wordsFrom (.quoted (cs.reverse ++ acc)) rest := by
  induction cs generalizing acc with
  | nil => rfl
  | cons c cs ih =>
    rw [List.flatMap_cons, List.append_assoc, wordsFrom_quoteChar, ih, List.reverse_cons,
      List.append_assoc, List.singleton_append]

/-- The text is read as the word, at the end of a line and in front of a blank. -/
structure Spells (text w : String) : Prop where
  last : wordsFrom .between text.toList = .ok [w.toList]
  before : ∀ rest, wordsFrom .between (text.toList ++ ' ' :: rest) =
    consWord w.toList.reverse (wordsFrom .between rest)

theorem spells_bare {w : String} (h : canBeBare w = true) : Spells w w := by
  simp only [canBeBare, Bool.and_eq_true, bne_iff_ne, List.all_eq_true, Bool.not_eq_true'] at h
  obtain ⟨⟨hne, hblank⟩, hquote⟩ := h
  obtain ⟨c, cs, hw⟩ := List.exists_cons_of_ne_nil hne
  rw [hw] at hblank hquote
  have hc : c ≠ '"' := fun hc => hquote (congrArg some hc)
  obtain ⟨hfirst, hrest⟩ := List.forall_mem_cons.mp hblank
  have hstart : ∀ rest, wordsFrom .between (w.toList ++ rest) =
      wordsFrom (.bare w.toList.reverse) rest := by
    intro rest
    rw [hw, List.cons_append, wordsFrom, hfirst, if_neg Bool.false_ne_true, if_neg hc,
      wordsFrom_bare hrest, List.reverse_cons]
  constructor
  · have hend := hstart []
    rw [List.append_nil] at hend
    rw [hend, wordsFrom, List.reverse_reverse]
  · intro rest
    rw [hstart, wordsFrom]
    rfl

theorem spells_quoteWord (w : String) : Spells (quoteWord w) w := by
  have hstart : ∀ rest, wordsFrom .between ((quoteWord w).toList ++ rest) =
      wordsFrom (.closed w.toList.reverse) rest := by
    intro rest
    rw [quoteWord, String.toList_ofList, List.cons_append, List.cons_append, List.append_assoc,
      wordsFrom, if_neg (by decide), if_pos rfl, wordsFrom_quoted, List.append_nil,
      List.singleton_append, wordsFrom, if_pos rfl]
  constructor
  · have hend := hstart []
    rw [List.append_nil] at hend
    rw [hend, wordsFrom, List.reverse_reverse]
  · intro rest
    rw [hstart, wordsFrom]
    rfl

theorem spells_writeWord (bare : String → Bool) (w : String) : Spells (writeWord bare w) w := by
  rw [writeWord]
  split_ifs with h
  · exact spells_bare (Bool.and_eq_true_iff.mp h).2
  · exact spells_quoteWord w

/-! ## Reading a line -/

theorem wordsFrom_joinWith (bare : String → Bool) {text w : String} (h : Spells text w)
    (args : List String) :
    wordsFrom .between (Text.joinWith " " (text :: args.map (writeWord bare))).toList =
      .ok (w.toList :: args.map String.toList) := by
  induction args generalizing text w with
  | nil => exact h.last
  | cons a args ih =>
    rw [List.map_cons, Text.joinWith, String.toList_append, String.toList_append,
      show " ".toList = [' '] from rfl, List.append_assoc, List.singleton_append, h.before,
      ih (spells_writeWord bare a), consWord, List.reverse_reverse, List.map_cons]
    simp

/-- **Words that were written on a line are read back.** -/
theorem wordsOf_writeLine (bare : String → Bool) {command : String} (h : canBeBare command = true)
    (args : List String) :
    wordsOf (writeLine bare command args).toList = .ok (command :: args) := by
  rw [wordsOf, writeLine, wordsFrom_joinWith bare (spells_bare h)]
  simp

/-! ## The line as a whole -/

theorem newline_notMem_of_bare {w : String} (h : canBeBare w = true) : '\n' ∉ w.toList := by
  simp only [canBeBare, Bool.and_eq_true, List.all_eq_true, Bool.not_eq_true'] at h
  intro hmem
  exact absurd (h.1.2 _ hmem) (by decide)

theorem newline_notMem_quoteChar (c : Char) : '\n' ∉ quoteChar c := by
  unfold quoteChar
  split
  · decide
  · decide
  · decide
  · decide
  · rename_i _ _ hnewline _
    simpa using Ne.symm hnewline

theorem newline_notMem_writeWord (bare : String → Bool) (w : String) :
    '\n' ∉ (writeWord bare w).toList := by
  rw [writeWord]
  split_ifs with h
  · exact newline_notMem_of_bare (Bool.and_eq_true_iff.mp h).2
  · simpa [quoteWord] using fun c _ => newline_notMem_quoteChar c

theorem newline_notMem_writeLine (bare : String → Bool) {command : String}
    (h : canBeBare command = true) (args : List String) :
    '\n' ∉ (writeLine bare command args).toList := by
  refine Text.newline_notMem_joinWith (List.forall_mem_cons.mpr ⟨newline_notMem_of_bare h, ?_⟩)
  intro t ht
  obtain ⟨w, -, rfl⟩ := List.mem_map.mp ht
  exact newline_notMem_writeWord bare w

/-- A text that does not end with a blank, and is not empty. -/
def EndsSolid (s : List Char) : Prop :=
  ∃ front c, s = front ++ [c] ∧ isBlank c = false

theorem endsSolid_of_bare {w : String} (h : canBeBare w = true) : EndsSolid w.toList := by
  simp only [canBeBare, Bool.and_eq_true, bne_iff_ne, List.all_eq_true, Bool.not_eq_true'] at h
  rcases List.eq_nil_or_concat w.toList with hw | ⟨front, c, hw⟩
  · exact absurd hw h.1.1
  · rw [List.concat_eq_append] at hw
    exact ⟨front, c, hw, h.1.2 c (hw ▸ List.mem_append_right front List.mem_cons_self)⟩

theorem endsSolid_writeWord (bare : String → Bool) (w : String) :
    EndsSolid (writeWord bare w).toList := by
  rw [writeWord]
  split_ifs with h
  · exact endsSolid_of_bare (Bool.and_eq_true_iff.mp h).2
  · exact ⟨'"' :: w.toList.flatMap quoteChar, '"', by simp [quoteWord], by decide⟩

theorem endsSolid_joinWith {items : List String} (hne : items ≠ [])
    (h : ∀ t ∈ items, EndsSolid t.toList) : EndsSolid (Text.joinWith " " items).toList := by
  fun_induction Text.joinWith " " items with
  | case1 => exact absurd rfl hne
  | case2 t => exact h t List.mem_cons_self
  | case3 t rest hrest ih =>
    obtain ⟨front, c, hlast, hc⟩ := ih (by simpa using hrest)
      fun t' ht' => h t' (List.mem_cons_of_mem t ht')
    exact ⟨t.toList ++ ' ' :: front, c, by simp [hlast], hc⟩

theorem endsSolid_writeLine (bare : String → Bool) {command : String}
    (h : canBeBare command = true) (args : List String) :
    EndsSolid (writeLine bare command args).toList := by
  refine endsSolid_joinWith (List.cons_ne_nil _ _)
    (List.forall_mem_cons.mpr ⟨endsSolid_of_bare h, fun t ht => ?_⟩)
  obtain ⟨w, -, rfl⟩ := List.mem_map.mp ht
  exact endsSolid_writeWord bare w

end BuildPlan.Scenario
