import BuildPlan.TestRun.Difference
import Mathlib.Data.List.Infix
import Mathlib.Order.Bounds.Basic

/-!
# What two texts have in common

The table of a difference holds the length of a longest common subsequence for every two tails of
the lines (`lcsTable_eq`), so the walk along it can be described without it: equal lines are kept,
and of two lines that differ the one goes first whose loss leaves more in common
(`diffLines_cons_of_ne`). A difference therefore holds both texts (`filterMap_old_diffLines`,
`filterMap_new_diffLines`) and keeps as many lines as they can have in common
(`isGreatest_common_diffLines`).
-/

namespace BuildPlan.TestRun

/-! ## Common subsequences -/

/-- The length of a longest common subsequence of two lists of lines. -/
def commonLength : (old new : List (List Char)) → Nat
  | [], _ => 0
  | _ :: _, [] => 0
  | a :: as, b :: bs =>
    if a = b then commonLength as bs + 1
    else max (commonLength as (b :: bs)) (commonLength (a :: as) bs)
termination_by old new => old.length + new.length

variable {old new : List (List Char)} {a b : List Char}

theorem commonLength_nil (old : List (List Char)) : commonLength old [] = 0 := by
  cases old <;> rw [commonLength]

theorem length_le_commonLength {c : List (List Char)} (hold : c.Sublist old)
    (hnew : c.Sublist new) : c.length ≤ commonLength old new := by
  fun_induction commonLength old new generalizing c with
  | case1 new => simp [List.sublist_nil.mp hold]
  | case2 a as => simp [List.sublist_nil.mp hnew]
  | case3 a as bs ih =>
    have htail := ih hold.tail hnew.tail
    rw [List.length_tail] at htail
    omega
  | case4 a as b bs hne ihold ihnew =>
    rcases List.sublist_cons_iff.mp hold with hskip | ⟨c', rfl, hc'⟩
    · exact (ihold hskip hnew).trans (Nat.le_max_left _ _)
    · have hskip : (a :: c').Sublist bs := by
        rcases List.sublist_cons_iff.mp hnew with hskip | ⟨d, hd, -⟩
        · exact hskip
        · exact absurd (List.cons.inj hd).1 hne
      exact (ihnew hold hskip).trans (Nat.le_max_right _ _)

/-! ## The table -/

theorem headD_map_tails {β : Type} (f : List (List Char) → β) (l : List (List Char)) (d : β) :
    (l.tails.map f).headD d = f l := by
  cases l <;> rfl

theorem lcsRow_tails (a : List Char) (as new : List (List Char)) :
    lcsRow a new (new.tails.map (commonLength as)) = new.tails.map (commonLength (a :: as)) := by
  induction new with
  | nil => rw [lcsRow, List.tails, List.map_singleton, commonLength_nil]
  | cons b bs ih =>
    rw [List.tails_cons, List.map_cons, List.map_cons, lcsRow, List.tail_cons, ih,
      headD_map_tails, headD_map_tails, List.headD_cons, commonLength]

/-- **The entries of the table** are the lengths of longest common subsequences of all tails. -/
theorem lcsTable_eq (old new : List (List Char)) :
    lcsTable old new = old.tails.map fun rest => new.tails.map (commonLength rest) := by
  induction old with
  | nil =>
    have hzero : new.tails.map (commonLength []) = List.replicate (new.length + 1) 0 := by
      rw [List.eq_replicate_iff, List.length_map, List.length_tails]
      simp [commonLength]
    rw [lcsTable, List.tails, List.map_singleton, hzero]
  | cons a as ih =>
    rw [lcsTable, ih, List.tails_cons, List.map_cons, headD_map_tails, lcsRow_tails]

theorem map_tail_lcsTable (old : List (List Char)) (b : List Char) (bs : List (List Char)) :
    (lcsTable old (b :: bs)).map List.tail = lcsTable old bs := by
  rw [lcsTable_eq, lcsTable_eq, List.map_map]
  rfl

theorem headD_lcsTable (old new : List (List Char)) :
    ((lcsTable old new).headD []).headD 0 = commonLength old new := by
  rw [lcsTable_eq, headD_map_tails, headD_map_tails]

/-! ## The difference -/

theorem walk_nil (new : List (List Char)) (table : List (List Nat)) :
    walk [] new table = new.map .extra := by
  induction new with
  | nil => rw [walk]; rfl
  | cons b bs ih => rw [walk, ih]; rfl

theorem walk_nil_right (old : List (List Char)) (table : List (List Nat)) :
    walk old [] table = old.map .missing := by
  induction old generalizing table with
  | nil => rw [walk]; rfl
  | cons a as ih => rw [walk, ih]; rfl

theorem diffLines_nil (new : List (List Char)) : diffLines [] new = new.map .extra :=
  walk_nil new _

theorem diffLines_nil_right (old : List (List Char)) : diffLines old [] = old.map .missing :=
  walk_nil_right old _

theorem diffLines_cons_self (a : List Char) (as bs : List (List Char)) :
    diffLines (a :: as) (a :: bs) = .common a :: diffLines as bs := by
  rw [diffLines, walk, if_pos rfl, diffLines, ← map_tail_lcsTable as a bs]
  rfl

/-- Of two lines that differ the one whose loss keeps more in common goes first. -/
theorem diffLines_cons_of_ne (h : a ≠ b) (as bs : List (List Char)) :
    diffLines (a :: as) (b :: bs) =
      if commonLength as (b :: bs) ≤ commonLength (a :: as) bs then
        .extra b :: diffLines (a :: as) bs
      else .missing a :: diffLines as (b :: bs) := by
  have hmissing : ((lcsTable (a :: as) (b :: bs)).tail.headD []).headD 0 =
      commonLength as (b :: bs) := headD_lcsTable as (b :: bs)
  have hextra : ((lcsTable (a :: as) (b :: bs)).headD []).tail.headD 0 =
      commonLength (a :: as) bs := by
    rw [← headD_lcsTable (a :: as) bs, ← map_tail_lcsTable (a :: as) b bs]
    rfl
  rw [diffLines, walk, if_neg h, hmissing, hextra, map_tail_lcsTable]
  rfl

namespace DiffLine

/-- The line, where it is one of the expected text. -/
def old? : DiffLine → Option (List Char)
  | common line => some line
  | missing line => some line
  | extra _ => none

/-- The line, where it is one of the actual text. -/
def new? : DiffLine → Option (List Char)
  | common line => some line
  | missing _ => none
  | extra line => some line

def common? : DiffLine → Option (List Char)
  | common line => some line
  | missing _ => none
  | extra _ => none

end DiffLine

theorem filterMap_old_diffLines (old new : List (List Char)) :
    (diffLines old new).filterMap DiffLine.old? = old := by
  fun_induction commonLength old new with
  | case1 new => simp [diffLines_nil, DiffLine.old?]
  | case2 a as => simp [diffLines_nil_right, DiffLine.old?, Function.comp_def]
  | case3 a as bs ih => simp [diffLines_cons_self, DiffLine.old?, ih]
  | case4 a as b bs hne ihold ihnew =>
    rw [diffLines_cons_of_ne hne]
    split <;> simp [List.filterMap_cons, DiffLine.old?, ihold, ihnew]

theorem filterMap_new_diffLines (old new : List (List Char)) :
    (diffLines old new).filterMap DiffLine.new? = new := by
  fun_induction commonLength old new with
  | case1 new => simp [diffLines_nil, DiffLine.new?, Function.comp_def]
  | case2 a as => simp [diffLines_nil_right, DiffLine.new?]
  | case3 a as bs ih => simp [diffLines_cons_self, DiffLine.new?, ih]
  | case4 a as b bs hne ihold ihnew =>
    rw [diffLines_cons_of_ne hne]
    split <;> simp [List.filterMap_cons, DiffLine.new?, ihold, ihnew]

theorem length_common_diffLines (old new : List (List Char)) :
    ((diffLines old new).filterMap DiffLine.common?).length = commonLength old new := by
  fun_induction commonLength old new with
  | case1 new => simp [diffLines_nil, DiffLine.common?]
  | case2 a as => simp [diffLines_nil_right, DiffLine.common?]
  | case3 a as bs ih => simp [diffLines_cons_self, DiffLine.common?, ih]
  | case4 a as b bs hne ihold ihnew =>
    rw [diffLines_cons_of_ne hne]
    split
    · next hle => simp [List.filterMap_cons, DiffLine.common?, ihnew, max_eq_right hle]
    · next hlt =>
      have hge := Nat.le_of_not_le hlt
      simp [List.filterMap_cons, DiffLine.common?, ihold, max_eq_left hge]

theorem common_sublist (side : DiffLine → Option (List Char))
    (hside : ∀ line, side (.common line) = some line) (ds : List DiffLine) :
    (ds.filterMap DiffLine.common?).Sublist (ds.filterMap side) := by
  induction ds with
  | nil => exact .slnil
  | cons d ds ih =>
    cases d with
    | common line => simpa [DiffLine.common?, hside] using ih
    | missing line =>
      rw [List.filterMap_cons, List.filterMap_cons]
      cases side (.missing line) with
      | none => exact ih
      | some l => exact ih.cons l
    | extra line =>
      rw [List.filterMap_cons, List.filterMap_cons]
      cases side (.extra line) with
      | none => exact ih
      | some l => exact ih.cons l

/-- **A difference keeps as many lines as two texts can have in common.** -/
theorem isGreatest_common_diffLines (old new : List (List Char)) :
    IsGreatest {n | ∃ c : List (List Char), c.Sublist old ∧ c.Sublist new ∧ c.length = n}
      ((diffLines old new).filterMap DiffLine.common?).length := by
  constructor
  · have hold := common_sublist DiffLine.old? (fun _ => rfl) (diffLines old new)
    have hnew := common_sublist DiffLine.new? (fun _ => rfl) (diffLines old new)
    rw [filterMap_old_diffLines] at hold
    rw [filterMap_new_diffLines] at hnew
    exact ⟨_, hold, hnew, rfl⟩
  · rintro n ⟨c, hold, hnew, rfl⟩
    rw [length_common_diffLines]
    exact length_le_commonLength hold hnew

end BuildPlan.TestRun
