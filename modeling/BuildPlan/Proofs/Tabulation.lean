import BuildPlan.Proofs.CommonLines

/-!
# Differences by index

The table of a difference as two loops fill it that go down through the rows and the columns, and
the walk as a loop over two positions. Lines and entries are looked up by index, every look-up and
every change of an entry fails where there is nothing at that index, and the walk fails when its
rounds are used up. Nothing of this happens: the loops come to the same difference
(`byIndex?_eq`), the walk in at most one round for each line of either text.
-/

namespace BuildPlan.TestRun

/-- The entry of a table in a row and a column, if the table has one there. -/
def cell? (table : List (List Nat)) (i j : Nat) : Option Nat :=
  table[i]?.bind (·[j]?)

/-- The table with another entry in a row and a column, if it has one there. -/
def setCell? (table : List (List Nat)) (i j entry : Nat) : Option (List (List Nat)) :=
  match table[i]? with
  | none => none
  | some row => if j < row.length then some (table.set i (row.set j entry)) else none

section Loops

variable (old new : List (List Char))

/-- The entry for the lines from `i` and from `j` on. -/
def newCell? (table : List (List Nat)) (i j : Nat) : Option Nat := do
  if (← old[i]?) = (← new[j]?) then
    return (← cell? table (i + 1) (j + 1)) + 1
  else
    return max (← cell? table (i + 1) j) (← cell? table i (j + 1))

/-- Fills the columns before `j` of row `i`, the last one first. -/
def fillRow? (i : Nat) : (j : Nat) → (table : List (List Nat)) → Option (List (List Nat))
  | 0, table => some table
  | j + 1, table => do
    let entry ← newCell? old new table i j
    fillRow? i j (← setCell? table i j entry)

def fillRows? : (i : Nat) → (table : List (List Nat)) → Option (List (List Nat))
  | 0, table => some table
  | i + 1, table => do fillRows? i (← fillRow? old new i new.length table)

/-- Whether a line of the actual text alone comes next. -/
def extraNext? (table : List (List Nat)) (i j : Nat) : Option Bool :=
  if j < new.length then
    if i = old.length then some true
    else do return decide ((← cell? table (i + 1) j) ≤ (← cell? table i (j + 1)))
  else some false

/-- The lines of the difference from `i` and from `j` on, in so many rounds at most. -/
def walkFrom? (table : List (List Nat)) : (rounds i j : Nat) → Option (List DiffLine)
  | rounds, i, j =>
    if i < old.length ∨ j < new.length then
      match rounds with
      | 0 => none
      | rounds + 1 =>
        if i < old.length ∧ j < new.length ∧ old[i]? = new[j]? then do
          return .common (← old[i]?) :: (← walkFrom? table rounds (i + 1) (j + 1))
        else do
          if ← extraNext? old new table i j then
            return .extra (← new[j]?) :: (← walkFrom? table rounds i (j + 1))
          else
            return .missing (← old[i]?) :: (← walkFrom? table rounds (i + 1) j)
    else some []

/-- The difference of two lists of lines by a table that starts with zeros. -/
def byIndex? : Option (List DiffLine) := do
  let zeros := List.replicate (old.length + 1) (List.replicate (new.length + 1) 0)
  let table ← fillRows? old new old.length zeros
  walkFrom? old new table (old.length + new.length) 0 0

end Loops

variable {old new : List (List Char)} {table : List (List Nat)}

/-! ## Filling the table -/

/-- The table has an entry for each tail of either list, and those below row `i`, and those of row
`i` from column `j` on, are filled. -/
structure Filled (old new : List (List Char)) (table : List (List Nat)) (i j : Nat) : Prop where
  rows : table.length = old.length + 1
  columns : ∀ row ∈ table, row.length = new.length + 1
  entries : ∀ k l, k ≤ old.length → l ≤ new.length →
    (i < k ∨ l = new.length ∨ k = i ∧ j ≤ l) →
    cell? table k l = some (commonLength (old.drop k) (new.drop l))

theorem Filled.setCell? {i j entry : Nat} (h : Filled old new table i (j + 1))
    (hi : i ≤ old.length) (hj : j ≤ new.length)
    (hentry : entry = commonLength (old.drop i) (new.drop j)) :
    ∃ table', setCell? table i j entry = some table' ∧ Filled old new table' i j := by
  have hrow : i < table.length := by
    rw [h.rows]
    omega
  have hcolumn : j < table[i].length := by
    rw [h.columns _ (List.getElem_mem hrow)]
    omega
  refine ⟨table.set i (table[i].set j entry), ?_, ?_, ?_, ?_⟩
  · rw [TestRun.setCell?, List.getElem?_eq_getElem hrow]
    exact if_pos hcolumn
  · rw [List.length_set, h.rows]
  · intro row hmem
    rcases List.mem_or_eq_of_mem_set hmem with hmem | rfl
    · exact h.columns row hmem
    · rw [List.length_set]
      exact h.columns _ (List.getElem_mem hrow)
  · intro k l hk hl hkl
    rw [cell?, List.getElem?_set]
    split_ifs with hik
    · rw [Option.bind_some, List.getElem?_set]
      split_ifs with hjl
      · rw [hentry, hik, hjl]
      · have hold := h.entries k l hk hl (by omega)
        rw [cell?, ← hik, List.getElem?_eq_getElem hrow] at hold
        rw [← hik]
        exact hold
    · exact h.entries k l hk hl (by omega)

theorem Filled.newCell? {i j : Nat} (h : Filled old new table i (j + 1)) (hi : i < old.length)
    (hj : j < new.length) :
    newCell? old new table i j = some (commonLength (old.drop i) (new.drop j)) := by
  have hboth := h.entries (i + 1) (j + 1) (by omega) (by omega) (by omega)
  have hbelow := h.entries (i + 1) j (by omega) (by omega) (by omega)
  have hright := h.entries i (j + 1) (by omega) (by omega) (by omega)
  rw [List.drop_eq_getElem_cons hj] at hbelow
  rw [List.drop_eq_getElem_cons hi] at hright
  rw [TestRun.newCell?, List.getElem?_eq_getElem hi, List.getElem?_eq_getElem hj, hboth, hbelow,
    hright, List.drop_eq_getElem_cons hi, List.drop_eq_getElem_cons hj, commonLength]
  simp only [Option.bind_eq_bind, Option.bind_some, Option.pure_def]
  split <;> rfl

/-- **Filling a row** never looks or writes beyond the table. -/
theorem Filled.fillRow? {i j : Nat} (h : Filled old new table i j) (hi : i < old.length)
    (hj : j ≤ new.length) :
    ∃ table', fillRow? old new i j table = some table' ∧ Filled old new table' i 0 := by
  induction j generalizing table with
  | zero => exact ⟨table, rfl, h⟩
  | succ j ih =>
    obtain ⟨next, hnext, hfilled⟩ := h.setCell? hi.le (by omega) rfl
    obtain ⟨table', hrest, hdone⟩ := ih hfilled (by omega)
    refine ⟨table', ?_, hdone⟩
    rw [TestRun.fillRow?, h.newCell? hi (by omega), Option.bind_eq_bind, Option.bind_some, hnext,
      Option.bind_eq_bind, Option.bind_some, hrest]

theorem Filled.nextRow {i : Nat} (h : Filled old new table (i + 1) 0) :
    Filled old new table i new.length where
  rows := h.rows
  columns := h.columns
  entries := fun k l hk hl hkl => h.entries k l hk hl (by omega)

theorem Filled.fillRows? {i : Nat} (h : Filled old new table i 0) (hi : i ≤ old.length) :
    ∃ table', fillRows? old new i table = some table' ∧ Filled old new table' 0 0 := by
  induction i generalizing table with
  | zero => exact ⟨table, rfl, h⟩
  | succ i ih =>
    obtain ⟨next, hnext, hfilled⟩ := h.nextRow.fillRow? (by omega) le_rfl
    obtain ⟨table', hrest, hdone⟩ := ih hfilled (by omega)
    refine ⟨table', ?_, hdone⟩
    rw [TestRun.fillRows?, hnext, Option.bind_eq_bind, Option.bind_some, hrest]

/-- A table of zeros is filled where one of the lists is used up. -/
theorem filled_zeros (old new : List (List Char)) :
    Filled old new (List.replicate (old.length + 1) (List.replicate (new.length + 1) 0))
      old.length 0 where
  rows := List.length_replicate
  columns := fun row hrow => by rw [List.eq_of_mem_replicate hrow, List.length_replicate]
  entries := by
    intro k l hk hl hkl
    have hzero : commonLength (old.drop k) (new.drop l) = 0 := by
      rcases hkl with hkl | rfl | ⟨rfl, -⟩
      · omega
      · rw [List.drop_length, commonLength_nil]
      · rw [List.drop_length, commonLength]
    rw [hzero, cell?, List.getElem?_replicate, if_pos (by omega), Option.bind_some,
      List.getElem?_replicate, if_pos (by omega)]

/-! ## Walking -/

theorem Filled.extraNext? (h : Filled old new table 0 0) {i j : Nat} (hi : i < old.length)
    (hj : j < new.length) :
    extraNext? old new table i j = some (decide
      (commonLength (old.drop (i + 1)) (new.drop j) ≤
        commonLength (old.drop i) (new.drop (j + 1)))) := by
  have hbelow := h.entries (i + 1) j (by omega) (by omega) (by omega)
  have hright := h.entries i (j + 1) (by omega) (by omega) (by omega)
  rw [TestRun.extraNext?, if_pos hj, if_neg (by omega), hbelow, hright]
  rfl

variable {rounds i j : Nat}

theorem walkFrom?_common (hi : i < old.length) (hj : j < new.length) (hsame : old[i] = new[j]) :
    walkFrom? old new table (rounds + 1) i j =
      (walkFrom? old new table rounds (i + 1) (j + 1)).map (.common old[i] :: ·) := by
  have hlines : old[i]? = new[j]? := by
    rw [List.getElem?_eq_getElem hi, List.getElem?_eq_getElem hj, hsame]
  rw [walkFrom?, if_pos (.inl hi), if_pos ⟨hi, hj, hlines⟩, List.getElem?_eq_getElem hi,
    Option.map_eq_bind]
  rfl

theorem walkFrom?_extra (hj : j < new.length) (hother : i < old.length → old[i]? ≠ new[j]?)
    (hnext : extraNext? old new table i j = some true) :
    walkFrom? old new table (rounds + 1) i j =
      (walkFrom? old new table rounds i (j + 1)).map (.extra new[j] :: ·) := by
  rw [walkFrom?, if_pos (.inr hj), if_neg fun h => hother h.1 h.2.2, hnext,
    List.getElem?_eq_getElem hj, Option.map_eq_bind]
  rfl

theorem walkFrom?_missing (hi : i < old.length) (hother : j < new.length → old[i]? ≠ new[j]?)
    (hnext : extraNext? old new table i j = some false) :
    walkFrom? old new table (rounds + 1) i j =
      (walkFrom? old new table rounds (i + 1) j).map (.missing old[i] :: ·) := by
  rw [walkFrom?, if_pos (.inl hi), if_neg fun h => hother h.2.1 h.2.2, hnext,
    List.getElem?_eq_getElem hi, Option.map_eq_bind]
  rfl

/-- **The walk** never looks beyond the table or the lines, and ends. -/
theorem Filled.walkFrom? (h : Filled old new table 0 0) (hi : i ≤ old.length)
    (hj : j ≤ new.length) (hrounds : old.length - i + (new.length - j) ≤ rounds) :
    walkFrom? old new table rounds i j = some (diffLines (old.drop i) (new.drop j)) := by
  induction rounds generalizing i j with
  | zero =>
    obtain rfl : i = old.length := by omega
    obtain rfl : j = new.length := by omega
    rw [TestRun.walkFrom?, if_neg (by omega), List.drop_length, List.drop_length, diffLines_nil]
    rfl
  | succ rounds ih =>
    rcases Nat.lt_or_eq_of_le hi with hi' | rfl <;> rcases Nat.lt_or_eq_of_le hj with hj' | rfl
    · -- lines of both are left
      have hold := List.drop_eq_getElem_cons hi'
      have hnew := List.drop_eq_getElem_cons hj'
      by_cases hsame : old[i] = new[j]
      · rw [walkFrom?_common hi' hj' hsame, ih hi' hj' (by omega), hold, hnew, hsame,
          diffLines_cons_self]
        rfl
      · have hother : old[i]? ≠ new[j]? := by
          rwa [List.getElem?_eq_getElem hi', List.getElem?_eq_getElem hj', Ne, Option.some_inj]
        have hnext := h.extraNext? hi' hj'
        rw [hold, hnew, diffLines_cons_of_ne hsame, ← hold, ← hnew]
        split
        · next hle =>
          rw [walkFrom?_extra hj' (fun _ => hother) (by simp [hnext, hle]), ih hi hj' (by omega)]
          rfl
        · next hlt =>
          rw [walkFrom?_missing hi' (fun _ => hother) (by simp [hnext, hlt]),
            ih hi' hj (by omega)]
          rfl
    · -- only expected lines are left
      have hnext : TestRun.extraNext? old new table i new.length = some false :=
        if_neg (by omega)
      rw [walkFrom?_missing hi' (fun hlt => absurd hlt (by omega)) hnext, ih hi' hj (by omega),
        List.drop_eq_getElem_cons hi', List.drop_length, diffLines_nil_right, diffLines_nil_right]
      rfl
    · -- only actual lines are left
      have hnext : TestRun.extraNext? old new table old.length j = some true := by
        rw [TestRun.extraNext?, if_pos hj', if_pos rfl]
      rw [walkFrom?_extra hj' (fun hlt => absurd hlt (by omega)) hnext, ih hi hj' (by omega),
        List.drop_eq_getElem_cons hj', List.drop_length, diffLines_nil, diffLines_nil]
      rfl
    · rw [TestRun.walkFrom?, if_neg (by omega), List.drop_length, List.drop_length, diffLines_nil]
      rfl

/-- **The loops come to the difference**, with every look-up in bounds and the walk at its end after
one round for each line at most. -/
theorem byIndex?_eq (old new : List (List Char)) :
    byIndex? old new = some (diffLines old new) := by
  obtain ⟨table, hfill, hfilled⟩ := (filled_zeros old new).fillRows? le_rfl
  rw [byIndex?]
  simp only [hfill, Option.bind_eq_bind, Option.bind_some]
  exact hfilled.walkFrom? (Nat.zero_le _) (Nat.zero_le _) (by omega)

end BuildPlan.TestRun
