import BuildPlan.Record.Basic
import BuildPlan.Proofs.Bytes
import BuildPlan.Proofs.Numeral
import Mathlib.Data.List.Induction
import Mathlib.Data.List.TakeWhile
import Mathlib.Tactic.Ring

/-!
# What a required status may be written as

A required status is read from `NOCRASH` or from a numeral in the 32-bit range, with blanks around
it, and from nothing else. What counts as a numeral, and its value, is said here by the places of
the digits. A reader that never holds more than 32 bits and gives up at the first overflow
comes to the same: once a value has left the range, no further digit brings it back.
-/

namespace BuildPlan

namespace Text

/-! ## A text without the blanks around it -/

/-- What is left of a text without the blanks at its two ends. -/
structure Trimmed (s kept : List Char) : Prop where
  around : ∃ before after, s = before ++ kept ++ after ∧
    (∀ c ∈ before, isBlank c = true) ∧ ∀ c ∈ after, isBlank c = true
  first : ∀ c ∈ kept.head?, isBlank c = false
  last : ∀ c ∈ kept.getLast?, isBlank c = false

theorem trimStart_spec (s : List Char) :
    ∃ before, s = before ++ trimStart s ∧ (∀ c ∈ before, isBlank c = true) ∧
      ∀ c ∈ (trimStart s).head?, isBlank c = false := by
  refine ⟨s.takeWhile isBlank, List.takeWhile_append_dropWhile.symm, ?_, ?_⟩
  · exact fun c hc => List.mem_takeWhile_imp hc
  · intro c hc
    have hnot := List.head?_dropWhile_not isBlank s
    rw [trimStart] at hc
    rw [Option.mem_def.mp hc] at hnot
    exact hnot

theorem trimEnd_spec (s : List Char) :
    ∃ after, s = trimEnd s ++ after ∧ (∀ c ∈ after, isBlank c = true) ∧
      ∀ c ∈ (trimEnd s).getLast?, isBlank c = false := by
  induction s using List.reverseRecOn with
  | nil => exact ⟨[], rfl, by simp, by simp [trimEnd]⟩
  | append_singleton s c ih =>
    cases hc : isBlank c with
    | true =>
      obtain ⟨after, hs, hafter, hlast⟩ := ih
      rw [trimEnd_concat_blank hc]
      refine ⟨after ++ [c], by rw [← List.append_assoc, ← hs], ?_, hlast⟩
      exact List.forall_mem_append.mpr ⟨hafter, List.forall_mem_singleton.mpr hc⟩
    | false =>
      rw [trimEnd_concat hc]
      exact ⟨[], (List.append_nil _).symm, by simp, by simp [hc]⟩

theorem trimmed_trim (s : List Char) : Trimmed s (trim s) := by
  obtain ⟨before, hs, hbefore, hfirst⟩ := trimStart_spec s
  obtain ⟨after, hstart, hafter, hlast⟩ := trimEnd_spec (trimStart s)
  refine ⟨⟨before, after, ?_, hbefore, hafter⟩, ?_, hlast⟩
  · rw [List.append_assoc, trim, ← hstart, ← hs]
  · -- What the blanks at the end are taken from has the same first character, if any is left.
    intro c hc
    refine hfirst c ?_
    rw [trim] at hc
    rw [hstart, List.head?_append, Option.mem_def.mp hc]
    rfl

/-! ## Numerals -/

theorem isBlank_of_isDigit {c : Char} (h : c.isDigit = true) : isBlank c = false := by
  have hrange : 48 ≤ c.toNat ∧ c.toNat ≤ 57 := by
    simpa [Char.isDigit, UInt32.le_iff_toNat_le] using h
  simp [isBlank]
  omega

/-- The value of a digit. -/
def digitOf (c : Char) : Nat :=
  c.toNat - '0'.toNat

/-- The value of a run of digits, each taken by its place. -/
def placeValue : List Char → Nat
  | [] => 0
  | c :: cs => digitOf c * 10 ^ cs.length + placeValue cs

def IsDigits (cs : List Char) : Prop :=
  cs ≠ [] ∧ ∀ c ∈ cs, c.isDigit = true

/-- The signed numerals and their values. -/
inductive Numeral : List Char → Int → Prop
  | plain {cs : List Char} (h : IsDigits cs) : Numeral cs (placeValue cs)
  | plus {cs : List Char} (h : IsDigits cs) : Numeral ('+' :: cs) (placeValue cs)
  | minus {cs : List Char} (h : IsDigits cs) : Numeral ('-' :: cs) (-placeValue cs)

theorem digitsValue?_cons {acc : Nat} {c : Char} (hc : c.isDigit = true) (cs : List Char) :
    digitsValue? acc (c :: cs) = digitsValue? (10 * acc + digitOf c) cs :=
  if_pos hc

theorem digitsValue?_eq_some_iff {cs : List Char} {acc n : Nat} :
    digitsValue? acc cs = some n ↔
      (∀ c ∈ cs, c.isDigit = true) ∧ acc * 10 ^ cs.length + placeValue cs = n := by
  induction cs generalizing acc with
  | nil => simp [digitsValue?, placeValue]
  | cons c cs ih =>
    rw [List.forall_mem_cons]
    by_cases hc : c.isDigit = true
    · have hvalue : (10 * acc + digitOf c) * 10 ^ cs.length + placeValue cs =
          acc * 10 ^ (c :: cs).length + placeValue (c :: cs) := by
        rw [placeValue, List.length_cons, Nat.pow_succ]
        ring
      rw [digitsValue?_cons hc, ih, hvalue]
      simp only [hc, true_and]
    · rw [digitsValue?, if_neg hc]
      simp only [hc, false_and, reduceCtorEq]

theorem digits?_eq_some_iff {cs : List Char} {n : Nat} :
    digits? cs = some n ↔ IsDigits cs ∧ placeValue cs = n := by
  cases cs with
  | nil => simp [digits?, IsDigits]
  | cons c cs =>
    rw [digits?.eq_2 _ (List.cons_ne_nil c cs), digitsValue?_eq_some_iff, Nat.zero_mul, Nat.zero_add]
    simp only [IsDigits, ne_eq, reduceCtorEq, not_false_eq_true, true_and]

theorem IsDigits.ne_sign {cs : List Char} (h : IsDigits cs) (rest : List Char) :
    cs ≠ '+' :: rest ∧ cs ≠ '-' :: rest := by
  constructor
  all_goals
    rintro rfl
    exact absurd (h.2 _ List.mem_cons_self) (by decide)

theorem map_digits?_eq_some_iff {f : Nat → Int} {cs : List Char} {n : Int} :
    (digits? cs).map f = some n ↔ IsDigits cs ∧ f (placeValue cs) = n := by
  simp only [Option.map_eq_some_iff, digits?_eq_some_iff, and_assoc, exists_and_left,
    exists_eq_left']

theorem parseInt?_eq_some_iff {s : List Char} {n : Int} : parseInt? s = some n ↔ Numeral s n := by
  constructor
  · intro h
    fun_cases parseInt? s with
    | case1 cs =>
      obtain ⟨hdigits, rfl⟩ := map_digits?_eq_some_iff.mp h
      exact .plus hdigits
    | case2 cs =>
      obtain ⟨hdigits, rfl⟩ := map_digits?_eq_some_iff.mp h
      exact .minus hdigits
    | case3 _ hplus hminus =>
      rw [parseInt?.eq_3 s hplus hminus] at h
      obtain ⟨hdigits, rfl⟩ := map_digits?_eq_some_iff.mp h
      exact .plain hdigits
  · rintro (h | h | h)
    · rw [parseInt?.eq_3 s (fun rest => (h.ne_sign rest).1) fun rest => (h.ne_sign rest).2]
      exact map_digits?_eq_some_iff.mpr ⟨h, rfl⟩
    · exact map_digits?_eq_some_iff.mpr ⟨h, rfl⟩
    · exact map_digits?_eq_some_iff.mpr ⟨h, rfl⟩

/-! ## Reading in 32 bits -/

def InRange (n : Int) : Prop :=
  -2147483648 ≤ n ∧ n ≤ 2147483647

theorem toInt32?_eq_some_iff {n : Int} {v : Int32} :
    toInt32? n = some v ↔ InRange n ∧ v.toInt = n := by
  have hv := And.intro v.le_toInt v.toInt_lt
  rw [toInt32?, InRange]
  constructor
  · intro h
    obtain ⟨hn, h⟩ := Option.ite_none_right_eq_some.mp h
    refine ⟨hn, ?_⟩
    rw [← Option.some.inj h, Int32.toInt_ofInt_of_le (by simpa using hn.1) (by omega)]
  · rintro ⟨hn, rfl⟩
    rw [if_pos hn, Int32.ofInt_toInt]

theorem toInt32?_eq_none_iff {n : Int} : toInt32? n = none ↔ ¬ InRange n := by
  rw [toInt32?, ite_eq_right_iff, InRange]
  simp

theorem parseInt32?_eq_some_iff {s : List Char} {v : Int32} :
    parseInt32? s = some v ↔ ∃ n, Numeral s n ∧ InRange n ∧ v.toInt = n := by
  simp only [parseInt32?, Option.bind_eq_some_iff, parseInt?_eq_some_iff, toInt32?_eq_some_iff]

theorem parseInt32?_eq_none_iff {s : List Char} :
    parseInt32? s = none ↔ ∀ n, Numeral s n → ¬ InRange n := by
  simp only [parseInt32?, Option.bind_eq_none_iff, parseInt?_eq_some_iff, toInt32?_eq_none_iff]

theorem exists_parseInt32?_iff {s : List Char} {n : Int} :
    (∃ v, parseInt32? s = some v ∧ v.toInt = n) ↔ Numeral s n ∧ InRange n := by
  constructor
  · rintro ⟨v, hv, rfl⟩
    obtain ⟨n, hnumeral, hrange, rfl⟩ := parseInt32?_eq_some_iff.mp hv
    exact ⟨hnumeral, hrange⟩
  · rintro ⟨hnumeral, hrange⟩
    have hv : (Int32.ofInt n).toInt = n := (toInt32?_eq_some_iff.mp (if_pos hrange)).2
    exact ⟨Int32.ofInt n, parseInt32?_eq_some_iff.mpr ⟨n, hnumeral, hrange, hv⟩, hv⟩

def signed (negative : Bool) (n : Nat) : Int :=
  if negative then -n else n

/-- A greater magnitude is out of the range too. -/
theorem toInt32?_signed_eq_none {negative : Bool} {n m : Nat} (hle : n ≤ m)
    (h : toInt32? (signed negative n) = none) : toInt32? (signed negative m) = none := by
  rw [toInt32?_eq_none_iff, InRange] at h ⊢
  cases negative
  all_goals
    simp only [signed, Bool.false_eq_true, if_true, if_false] at h ⊢
    omega

/-- Reads one more digit behind a value of 32 bits: the value is multiplied and the digit added, or
taken away behind a minus. Either may overflow. -/
def appendDigit? (negative : Bool) (v : Int32) (c : Char) : Option Int32 :=
  if c.isDigit then
    (toInt32? (v.toInt * 10)).bind fun tens => toInt32? (tens.toInt + signed negative (digitOf c))
  else none

/-- Reads a signed numeral without ever leaving 32 bits. -/
def parseStepwise? : List Char → Option Int32
  | [] => none
  | ['+'] => none
  | ['-'] => none
  | '+' :: cs => cs.foldlM (appendDigit? false) 0
  | '-' :: cs => cs.foldlM (appendDigit? true) 0
  | cs => cs.foldlM (appendDigit? false) 0

theorem appendDigit?_eq {negative : Bool} {v : Int32} {n : Nat} {c : Char}
    (hv : v.toInt = signed negative n) (hc : c.isDigit = true) :
    appendDigit? negative v c = toInt32? (signed negative (10 * n + digitOf c)) := by
  have hten : signed negative n * 10 = signed negative (10 * n) := by
    cases negative <;> simp only [signed, Bool.false_eq_true, if_true, if_false] <;> omega
  have hadd : signed negative (10 * n) + signed negative (digitOf c) =
      signed negative (10 * n + digitOf c) := by
    cases negative <;> simp only [signed, Bool.false_eq_true, if_true, if_false] <;> omega
  rw [appendDigit?, if_pos hc, hv, hten]
  cases htens : toInt32? (signed negative (10 * n)) with
  | none => rw [toInt32?_signed_eq_none (Nat.le_add_right _ _) htens, Option.bind_none]
  | some tens => rw [Option.bind_some, (toInt32?_eq_some_iff.mp htens).2, hadd]

theorem le_of_digitsValue? {cs : List Char} {acc n : Nat} (h : digitsValue? acc cs = some n) :
    acc ≤ n := by
  rw [← (digitsValue?_eq_some_iff.mp h).2]
  exact (Nat.le_mul_of_pos_right acc (Nat.pow_pos (by decide))).trans (Nat.le_add_right _ _)

/-- An overflow on the way is an overflow at the end: the digits behind it only add. -/
theorem foldlM_appendDigit? {negative : Bool} {v : Int32} {n : Nat} (hv : v.toInt = signed negative n)
    (cs : List Char) :
    cs.foldlM (appendDigit? negative) v =
      (digitsValue? n cs).bind fun m => toInt32? (signed negative m) := by
  induction cs generalizing v n with
  | nil =>
    have hrange := And.intro v.le_toInt v.toInt_lt
    rw [digitsValue?, Option.bind_some, List.foldlM_nil]
    refine (toInt32?_eq_some_iff.mpr ⟨?_, hv⟩).symm
    rw [← hv, InRange]
    omega
  | cons c cs ih =>
    rw [List.foldlM_cons]
    by_cases hc : c.isDigit = true
    · rw [digitsValue?_cons hc, appendDigit?_eq hv hc]
      cases hnext : toInt32? (signed negative (10 * n + digitOf c)) with
      | some next => exact ih (toInt32?_eq_some_iff.mp hnext).2
      | none =>
        refine (Option.bind_eq_none_iff.mpr fun m hm => ?_).symm
        exact toInt32?_signed_eq_none (le_of_digitsValue? hm) hnext
    · rw [appendDigit?, if_neg hc, digitsValue?, if_neg hc]
      rfl

theorem parseStepwise?_eq (s : List Char) : parseStepwise? s = parseInt32? s := by
  have hread (negative : Bool) {cs : List Char} (hne : cs ≠ []) :
      cs.foldlM (appendDigit? negative) 0 =
        ((digits? cs).map (signed negative)).bind toInt32? := by
    rw [digits?.eq_2 cs hne, Option.bind_map]
    exact foldlM_appendDigit? (by cases negative <;> rfl) cs
  fun_cases parseStepwise? s with
  | case1 => rfl
  | case2 => rfl
  | case3 => rfl
  | case4 cs hne => exact hread false (by rintro rfl; exact hne rfl)
  | case5 cs hne => exact hread true (by rintro rfl; exact hne rfl)
  | case6 _ hne _ _ hplus hminus =>
    rw [parseInt32?, parseInt?.eq_3 s hplus hminus]
    exact hread false hne

end Text

namespace RequiredStatus

open Text

theorem parse?_eq (value : String) :
    parse? value = if trim value.toList = noCrashWord.toList then some noCrash
      else (parseInt32? (trim value.toList)).map exit :=
  rfl

theorem parseInt32?_noCrashWord : parseInt32? noCrashWord.toList = none := by
  decide

theorem parse?_eq_noCrash_iff {value : String} :
    parse? value = some noCrash ↔ trim value.toList = noCrashWord.toList := by
  rw [parse?_eq]
  split
  · exact iff_of_true rfl ‹_›
  · refine iff_of_false (fun h => ?_) ‹_›
    obtain ⟨code, -, hcode⟩ := Option.map_eq_some_iff.mp h
    exact RequiredStatus.noConfusion hcode

theorem parse?_eq_exit_iff {value : String} {code : Int32} :
    parse? value = some (exit code) ↔ parseInt32? (trim value.toList) = some code := by
  rw [parse?_eq]
  split
  · rename_i hword
    rw [hword, parseInt32?_noCrashWord]
    exact iff_of_false (by simp) (by simp)
  · simp

theorem parse?_eq_none_iff {value : String} :
    parse? value = none ↔
      trim value.toList ≠ noCrashWord.toList ∧ parseInt32? (trim value.toList) = none := by
  rw [parse?_eq]
  split
  · exact iff_of_false (by simp) (fun h => h.1 ‹_›)
  · rw [Option.map_eq_none_iff]
    exact (and_iff_right ‹_›).symm

theorem isBlank_of_mem_text {r : RequiredStatus} {c : Char} (hc : c ∈ r.text.toList) :
    isBlank c = false := by
  cases r with
  | noCrash =>
    have hall : noCrashWord.toList.all (fun c => isBlank c == false) = true := by decide
    exact eq_of_beq (List.all_eq_true.mp hall c hc)
  | exit code =>
    rcases mem_showInt hc with rfl | hdigit
    · rfl
    · exact isBlank_of_isDigit hdigit

theorem parse?_text (r : RequiredStatus) {before after : String}
    (hbefore : ∀ c ∈ before.toList, isBlank c = true)
    (hafter : ∀ c ∈ after.toList, isBlank c = true) :
    parse? (before ++ r.text ++ after) = some r := by
  have htrim : trim (before ++ r.text ++ after).toList = r.text.toList := by
    rw [String.toList_append, String.toList_append]
    exact trim_blanks (fun c hc => isBlank_of_mem_text hc) hbefore hafter
  cases r with
  | noCrash => exact parse?_eq_noCrash_iff.mpr htrim
  | exit code =>
    rw [parse?_eq_exit_iff, htrim]
    exact parseInt32?_showInt code

/-- A status is read from `NOCRASH` or from a numeral in the 32-bit range, with blanks around it,
and from no other text; without leaving 32 bits, the numeral is read in the same way. A
status that was written is read back. -/
theorem reads_exactly :
    (∀ value : String,
      Trimmed value.toList (trim value.toList) ∧
      (parse? value = some noCrash ↔ trim value.toList = "NOCRASH".toList) ∧
      (∀ n : Int, (∃ code, parse? value = some (exit code) ∧ code.toInt = n) ↔
        Numeral (trim value.toList) n ∧ -2147483648 ≤ n ∧ n ≤ 2147483647) ∧
      (parse? value = none ↔ trim value.toList ≠ "NOCRASH".toList ∧
        ∀ n, Numeral (trim value.toList) n → ¬ (-2147483648 ≤ n ∧ n ≤ 2147483647)) ∧
      ∀ code, parse? value = some (exit code) ↔ parseStepwise? (trim value.toList) = some code) ∧
    ∀ (r : RequiredStatus) (before after : String),
      (∀ c ∈ before.toList, isBlank c = true) → (∀ c ∈ after.toList, isBlank c = true) →
      parse? (before ++ r.text ++ after) = some r := by
  refine ⟨fun value => ⟨trimmed_trim _, parse?_eq_noCrash_iff, fun n => ?_, ?_, fun code => ?_⟩,
    fun r before after => parse?_text r⟩
  · simp only [parse?_eq_exit_iff]
    exact exists_parseInt32?_iff
  · rw [parse?_eq_none_iff, parseInt32?_eq_none_iff]
    rfl
  · rw [parse?_eq_exit_iff, parseStepwise?_eq]

/-- The range is not symmetric, and leading zeros do not count. -/
theorem reads_exactly_at_bounds :
    (∃ code, parse? "\u3000+0002147483647\r\n" = some (exit code) ∧ code.toInt = 2147483647) ∧
    parse? "2147483648" = none ∧
    parse? ("\t" ++ (exit (-2147483648)).text ++ "\n") = some (exit (-2147483648)) := by
  refine ⟨?_, ?_, reads_exactly.2 (exit (-2147483648)) "\t" "\n" (List.all_eq_true.mp (by decide))
    (List.all_eq_true.mp (by decide))⟩
  · have hnumeral : Numeral (trim "\u3000+0002147483647\r\n".toList) 2147483647 :=
      .plus (show IsDigits "0002147483647".toList from
        ⟨by decide, List.all_eq_true.mp (by decide)⟩)
    exact ((reads_exactly.1 _).2.2.1 _).mpr ⟨hnumeral, by decide, by decide⟩
  · refine (reads_exactly.1 _).2.2.2.1.mpr ⟨by decide, fun n h hrange => ?_⟩
    have hread : parseInt? (trim "2147483648".toList) = some 2147483648 := by decide
    rw [← parseInt?_eq_some_iff, hread] at h
    have hn := Option.some.inj h
    omega

end RequiredStatus

end BuildPlan
