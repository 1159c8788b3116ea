import BuildPlan.Text.Numeral
import Mathlib.Logic.Function.Defs

/-!
# Reading decimal numerals that were written

A numeral is read back as the number that it was written for, with and without a sign.
-/

namespace BuildPlan.Text

/-! ## Digits -/

theorem digitsValue?_of_isDigit {cs : List Char} (hcs : ∀ c ∈ cs, c.isDigit = true) (acc : Nat) :
    digitsValue? acc cs = some (Nat.ofDigitChars 10 cs acc) := by
  induction cs generalizing acc with
  | nil => rw [digitsValue?, Nat.ofDigitChars_nil]
  | cons c cs ih =>
    rw [digitsValue?, if_pos (hcs c List.mem_cons_self),
      ih fun d hd => hcs d (List.mem_cons_of_mem c hd), Nat.ofDigitChars_cons]

theorem isDigit_of_mem_toDigits {n : Nat} {c : Char} (hc : c ∈ Nat.toDigits 10 n) :
    c.isDigit = true :=
  Nat.isDigit_of_mem_toDigits (by decide) (by decide) hc

theorem notMem_toDigits {c : Char} (hc : c.isDigit = false) (n : Nat) : c ∉ Nat.toDigits 10 n :=
  fun h => Bool.false_ne_true (hc.symm.trans (isDigit_of_mem_toDigits h))

theorem digits?_toDigits (n : Nat) : digits? (Nat.toDigits 10 n) = some n := by
  rw [digits?.eq_2 _ Nat.toDigits_ne_nil,
    digitsValue?_of_isDigit fun c hc => isDigit_of_mem_toDigits hc, Nat.ofDigitChars_ten_toDigits]

theorem exists_cons_toDigits (n : Nat) :
    ∃ c cs, Nat.toDigits 10 n = c :: cs ∧ c.isDigit = true := by
  obtain ⟨c, cs, h⟩ := List.exists_cons_of_ne_nil (Nat.toDigits_ne_nil (n := n) (b := 10))
  exact ⟨c, cs, h, isDigit_of_mem_toDigits (h ▸ List.mem_cons_self)⟩

/-! ## Numerals -/

theorem parseNat?_repr {limit n : Nat} (h : n < limit) :
    parseNat? limit (Nat.repr n).toList = some n := by
  obtain ⟨c, cs, hdigits, hc⟩ := exists_cons_toDigits n
  have hplus : c ≠ '+' := by
    rintro rfl
    exact absurd hc (by decide)
  have hread := digits?_toDigits n
  rw [hdigits] at hread
  rw [Nat.toList_repr, hdigits, parseNat?, hread, Option.filter_some, if_pos (by simpa using h)]
  exact fun cs' hcs => hplus (List.cons.inj hcs).1

theorem parseInt?_showInt (n : Int) : parseInt? (showInt n).toList = some n := by
  cases n with
  | ofNat n =>
    obtain ⟨c, cs, hdigits, hc⟩ := exists_cons_toDigits n
    have hread := digits?_toDigits n
    rw [hdigits] at hread
    rw [showInt, Nat.toList_repr, hdigits, parseInt?, hread]
    · rfl
    all_goals
      rintro cs' h
      rw [(List.cons.inj h).1] at hc
      exact absurd hc (by decide)
  | negSucc n =>
    rw [showInt, String.toList_append, Nat.toList_repr, show "-".toList = ['-'] from rfl,
      List.singleton_append, parseInt?, digits?_toDigits]
    rfl

theorem parseInt32?_showInt (v : Int32) : parseInt32? (showInt v.toInt).toList = some v := by
  have hrange := And.intro v.le_toInt v.toInt_lt
  rw [parseInt32?, parseInt?_showInt, Option.bind_some, toInt32?, if_pos (by omega),
    Int32.ofInt_toInt]

theorem showInt_injective : Function.Injective showInt := by
  intro n m h
  have hn := parseInt?_showInt n
  rw [h, parseInt?_showInt] at hn
  exact (Option.some.inj hn).symm

theorem mem_showInt {n : Int} {c : Char} (h : c ∈ (showInt n).toList) :
    c = '-' ∨ c.isDigit = true := by
  cases n with
  | ofNat n =>
    rw [showInt, Nat.toList_repr] at h
    exact .inr (isDigit_of_mem_toDigits h)
  | negSucc n =>
    rw [showInt, String.toList_append, Nat.toList_repr, List.mem_append] at h
    exact h.imp (by simp) isDigit_of_mem_toDigits

end BuildPlan.Text
