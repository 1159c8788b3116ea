import BuildPlan.Json.Escape
import BuildPlan.Json.Reader
import BuildPlan.Proofs.Numeral
import Mathlib.Tactic.SplitIfs

/-!
# Reading JSON that was written

A text that was written is read back, whatever way its chunks were cut (`readText_writeText`), and
so is a decimal numeral in front of anything that does not carry it on (`readNumber_showInt`).
-/

namespace BuildPlan.Json

open Text (digits?_toDigits isDigit_of_mem_toDigits)

/-! ## Characters of a text -/

theorem readText_letterEscape {c e : Char} (hc : letterEscape? c = some e) (rest : List Char) :
    readText ('\\' :: c :: rest) = (readText rest).map fun r => (e :: r.1, r.2) := by
  have hu : c ≠ 'u' := by
    rintro rfl
    simp [letterEscape?] at hc
  rw [readText, hc]
  intro _ _ _ _ _ h
  exact absurd h hu

theorem readText_codeEscape {n : Nat} (hn : n < 0x80) (rest : List Char) :
    readText (codeEscape n ++ rest) = (readText rest).map fun r => (Char.ofNat n :: r.1, r.2) := by
  have hall : ∀ n < 0x80,
      unit? '0' '0' (Nat.digitChar (n / 16)) (Nat.digitChar (n % 16)) = some n := by decide
  have hhigh : isHighSurrogate n = false := by
    simp only [isHighSurrogate, Bool.and_eq_false_iff, decide_eq_false_iff_not]
    omega
  have hlow : isLowSurrogate n = false := by
    simp only [isLowSurrogate, Bool.and_eq_false_iff, decide_eq_false_iff_not]
    omega
  simp only [codeEscape, List.cons_append, List.nil_append, readText, hall n hn, hhigh, hlow,
    Bool.false_eq_true, if_false]

theorem readText_raw {c : Char} (hquote : c ≠ '"') (hback : c ≠ '\\') (hc : 0x20 ≤ c.toNat)
    (rest : List Char) :
    readText (c :: rest) = (readText rest).map fun r => (c :: r.1, r.2) := by
  have hlow : ¬ c.toNat < 0x20 := by omega
  rw [readText]
  · simp only [hback, hlow, decide_false, Bool.or_self, Bool.false_eq_true, if_false]
  · exact hquote
  all_goals
    intros
    contradiction

theorem readText_escapeChar (c : Char) (rest : List Char) :
    readText (escapeChar c ++ rest) = (readText rest).map fun r => (c :: r.1, r.2) := by
  unfold escapeChar
  split_ifs with hquote hback hn hr ht hb hf hcode
  · subst hquote
    exact readText_letterEscape (by rfl) rest
  · subst hback
    exact readText_letterEscape (by rfl) rest
  · subst hn
    exact readText_letterEscape (by rfl) rest
  · subst hr
    exact readText_letterEscape (by rfl) rest
  · subst ht
    exact readText_letterEscape (by rfl) rest
  · subst hb
    exact readText_letterEscape (by rfl) rest
  · subst hf
    exact readText_letterEscape (by rfl) rest
  · have hsmall : c.toNat < 0x80 := by
      rcases hcode with hcode | rfl
      · omega
      · decide
    rw [readText_codeEscape hsmall, Char.ofNat_toNat]
  · exact readText_raw hquote hback (by omega) rest

theorem readText_plain {c : Char} (hc : isPlain c = true) (rest : List Char) :
    readText (c :: rest) = (readText rest).map fun r => (c :: r.1, r.2) := by
  simp only [isPlain, Bool.and_eq_true, decide_eq_true_eq, bne_iff_ne] at hc
  exact readText_raw hc.1.2 hc.2 hc.1.1.1 rest

/-! ## Chunks -/

/-- What holds within a chunk: the characters that are still to be copied are plain. -/
def CopiesPlain (copying : Bool) (left : Nat) (s : List Char) : Prop :=
  copying = true → ∀ c ∈ s.take left, isPlain c = true

theorem copiesPlain_of_startsPlain {c : Char} {cs : List Char}
    (h : startsPlain (c :: cs) = true) :
    isPlain c = true ∧ CopiesPlain true (chunkSize - 1) cs := by
  simp only [startsPlain, Bool.and_eq_true, List.all_eq_true] at h
  refine ⟨h.2 c List.mem_cons_self, fun _ d hd => h.2 d ?_⟩
  exact List.mem_cons_of_mem c hd

theorem readText_escapeFrom {copying : Bool} {left : Nat} {s : List Char}
    (h : CopiesPlain copying left s) (rest : List Char) :
    readText (escapeFrom copying left s ++ '"' :: rest) = some (s, rest) := by
  fun_induction escapeFrom copying left s with
  | case1 copying left => rw [List.nil_append, readText]
  | case2 copying c cs hstart ih =>
    obtain ⟨hc, hcs⟩ := copiesPlain_of_startsPlain hstart
    rw [List.cons_append, readText_plain hc, ih hcs]
    rfl
  | case3 copying c cs hstart ih =>
    rw [List.append_assoc, readText_escapeChar, ih fun hcopying => by contradiction]
    rfl
  | case4 left c cs ih =>
    have hcs : CopiesPlain true left cs := fun _ d hd => h rfl d (List.mem_cons_of_mem c hd)
    rw [List.cons_append, readText_plain (h rfl c List.mem_cons_self), ih hcs]
    rfl
  | case5 left c cs ih =>
    rw [List.append_assoc, readText_escapeChar, ih fun hcopying => by contradiction]
    rfl

/-- **Texts are read back**: what is written for a text is an opening quote and then what is read as
that text, up to the closing quote. -/
theorem readText_writeText (s : String) (rest : List Char) :
    ∃ body, (writeText s).toList = '"' :: body ∧
      readText (body ++ rest) = some (s.toList, rest) := by
  refine ⟨escapeFrom false 0 s.toList ++ ['"'], by simp [writeText], ?_⟩
  rw [List.append_assoc, List.singleton_append, readText_escapeFrom fun h => by contradiction]

/-- A DEL is escaped outside a copied chunk, and copied within one. -/
example :
    writeText "\x7f" = "\"\\u007f\"" ∧
      writeText "0123456789abcde\x7f" = "\"0123456789abcde\x7f\"" := by
  decide

/-! ## Numerals -/

theorem head?_toDigits_ne_zero {n : Nat} (hn : 0 < n) : (Nat.toDigits 10 n).head? ≠ some '0' := by
  induction n using Nat.strongRecOn with
  | ind n ih =>
    by_cases hlt : n < 10
    · rw [Nat.toDigits_of_lt_base hlt, List.head?_cons, ne_eq, Option.some.injEq,
        Nat.digitChar_eq_zero]
      omega
    · have hrest := ih (n / 10) (by omega) (by omega)
      obtain ⟨c, cs, h⟩ := List.exists_cons_of_ne_nil (Nat.toDigits_ne_nil (n := n / 10) (b := 10))
      rw [h] at hrest
      rwa [Nat.toDigits_of_base_le (by decide) (by omega), h, List.cons_append]

theorem toDigits_ne_zero_cons (n : Nat) (d : Char) (ds : List Char) :
    Nat.toDigits 10 n ≠ '0' :: d :: ds := by
  intro h
  rcases Nat.eq_zero_or_pos n with rfl | hn
  · rw [Nat.toDigits_zero] at h
    exact absurd h (by simp)
  · exact head?_toDigits_ne_zero hn (by rw [h, List.head?_cons])

/-- What stands behind a numeral and does not carry it on. -/
def EndsNumeral : List Char → Prop
  | [] => True
  | c :: _ => c.isDigit = false ∧ c ≠ '.' ∧ c ≠ 'e' ∧ c ≠ 'E'

theorem EndsNumeral.comma (rest : List Char) : EndsNumeral (',' :: rest) := by
  refine ⟨?_, ?_, ?_, ?_⟩ <;> decide

theorem EndsNumeral.brace (rest : List Char) : EndsNumeral ('\x7d' :: rest) := by
  refine ⟨?_, ?_, ?_, ?_⟩ <;> decide

theorem spanDigits_append {ds rest : List Char} (hds : ∀ c ∈ ds, c.isDigit = true)
    (hrest : EndsNumeral rest) : spanDigits (ds ++ rest) = (ds, rest) := by
  rw [spanDigits, List.takeWhile_append_of_pos hds, List.dropWhile_append_of_pos hds]
  cases rest with
  | nil => simp
  | cons c rest => simp [hrest.1]

theorem skipFraction?_eq {rest : List Char} (hrest : EndsNumeral rest) :
    skipFraction? rest = some (false, rest) := by
  cases rest with
  | nil => rfl
  | cons c rest =>
    rw [skipFraction?]
    intro _ h
    exact absurd (List.cons.inj h).1 hrest.2.1

theorem skipExponent?_eq {rest : List Char} (hrest : EndsNumeral rest) :
    skipExponent? rest = some (false, rest) := by
  cases rest with
  | nil => rfl
  | cons c rest => simp [skipExponent?, hrest.2.2.1, hrest.2.2.2]

theorem readMagnitude_toDigits (negative : Bool) (n : Nat) {rest : List Char}
    (hrest : EndsNumeral rest) :
    readMagnitude negative (Nat.toDigits 10 n ++ rest) =
      some (integer (if negative then -Int.ofNat n else Int.ofNat n), rest) := by
  rw [readMagnitude, spanDigits_append (fun c hc => isDigit_of_mem_toDigits hc) hrest]
  split
  · rename_i h
    exact absurd (congrArg Prod.fst h) Nat.toDigits_ne_nil
  · rename_i h
    exact absurd (congrArg Prod.fst h) (toDigits_ne_zero_cons n _ _)
  · rename_i h
    obtain ⟨rfl, rfl⟩ := Prod.mk.inj h
    simp [digits?_toDigits, skipFraction?_eq hrest, skipExponent?_eq hrest]

theorem showInt_natCast (n : Nat) : Text.showInt n = Nat.repr n := rfl

/-- A numeral starts with its sign or with a digit. -/
theorem showInt_eq_cons (i : Int) :
    ∃ c cs, (Text.showInt i).toList = c :: cs ∧ (c = '-' ∨ c.isDigit = true) := by
  cases i with
  | ofNat n =>
    obtain ⟨c, cs, h, hc⟩ := Text.exists_cons_toDigits n
    exact ⟨c, cs, by rw [Text.showInt, Nat.toList_repr, h], Or.inr hc⟩
  | negSucc n => exact ⟨'-', Nat.toDigits 10 (n + 1), by simp [Text.showInt], Or.inl rfl⟩

/-- **Numerals are read back**, in front of what does not carry them on. -/
theorem readNumber_showInt (i : Int) {rest : List Char} (hrest : EndsNumeral rest) :
    readNumber ((Text.showInt i).toList ++ rest) = some (integer i, rest) := by
  cases i with
  | ofNat n =>
    rw [Text.showInt, Nat.toList_repr, readNumber, readMagnitude_toDigits false n hrest]
    · rfl
    · intro tail h
      have hminus : '-' ∈ Nat.toDigits 10 n := by
        cases hds : Nat.toDigits 10 n with
        | nil => exact absurd hds Nat.toDigits_ne_nil
        | cons c cs =>
          rw [hds, List.cons_append] at h
          exact (List.cons.inj h).1 ▸ List.mem_cons_self
      exact absurd (isDigit_of_mem_toDigits hminus) (by decide)
  | negSucc n =>
    have hminus : (Text.showInt (Int.negSucc n)).toList = '-' :: Nat.toDigits 10 (n + 1) := by
      simp [Text.showInt]
    rw [hminus, List.cons_append, readNumber, readMagnitude_toDigits true (n + 1) hrest]
    rfl

/-! ## Values and members -/

/-- The text is read as the value wherever at least `fuel` is left, in front of anything that does
not carry a numeral on. -/
structure Reads (fuel : Nat) (text : List Char) (value : Json) : Prop where
  not_blank : ∃ c cs, text = c :: cs ∧ isBlank c = false
  read : ∀ k ≥ fuel, ∀ rest, EndsNumeral rest → readValue k (text ++ rest) = some (value, rest)

/-- The text is read as the members wherever at least `fuel` is left, in front of a brace. -/
structure ReadsMembers (fuel : Nat) (text : List Char) (members : List (String × Json)) : Prop where
  quote : ∃ cs, text = '"' :: cs
  read : ∀ k ≥ fuel, ∀ rest, readMembers k (text ++ '\x7d' :: rest) = some (members, rest)

theorem Reads.mono {fuel more : Nat} {text : List Char} {value : Json} (h : Reads fuel text value)
    (hmore : fuel ≤ more) : Reads more text value :=
  ⟨h.not_blank, fun k hk => h.read k (Nat.le_trans hmore hk)⟩

theorem skipBlanks_of_head {s : List Char} (h : ∃ c cs, s = c :: cs ∧ isBlank c = false)
    (rest : List Char) : skipBlanks (s ++ rest) = s ++ rest := by
  obtain ⟨c, cs, rfl, hc⟩ := h
  rw [skipBlanks, List.cons_append, List.dropWhile_cons_of_neg (by simp [hc])]

theorem reads_text (s : String) : Reads 1 (writeText s).toList (string s) where
  not_blank := ⟨'"', escapeFrom false 0 s.toList ++ ['"'], by simp [writeText], by decide⟩
  read := by
    intro k hk rest _
    obtain ⟨fuel, rfl⟩ := Nat.exists_eq_add_of_le' hk
    obtain ⟨body, hbody, hread⟩ := readText_writeText s rest
    rw [hbody, List.cons_append, readValue, hread, Option.map_some, String.ofList_toList]

theorem reads_showInt (i : Int) : Reads 1 (Text.showInt i).toList (integer i) := by
  obtain ⟨c, cs, hcons, hc⟩ := showInt_eq_cons i
  have hblank : isBlank c = false := by
    simp only [isBlank, Bool.or_eq_false_iff, beq_eq_false_iff_ne]
    refine ⟨⟨⟨?_, ?_⟩, ?_⟩, ?_⟩ <;>
    · rintro rfl
      exact absurd hc (by decide)
  refine ⟨⟨c, cs, hcons, hblank⟩, fun k hk rest hrest => ?_⟩
  obtain ⟨fuel, rfl⟩ := Nat.exists_eq_add_of_le' hk
  have hnumber := readNumber_showInt i hrest
  rw [hcons, List.cons_append] at hnumber ⊢
  rw [readValue, hnumber]
  -- none of the other forms of a value starts like a numeral
  all_goals
    intro _ h
    obtain rfl := (List.cons.inj h).1
    exact absurd hc (by decide)

theorem readText_of_plain {cs : List Char} (hcs : ∀ c ∈ cs, isPlain c = true) (rest : List Char) :
    readText (cs ++ '"' :: rest) = some (cs, rest) := by
  induction cs with
  | nil => rw [List.nil_append, readText]
  | cons c cs ih =>
    rw [List.cons_append, readText_plain (hcs c List.mem_cons_self),
      ih fun d hd => hcs d (List.mem_cons_of_mem c hd)]
    rfl

/-- A member of an object as it is written. -/
def memberText (name : String) (text : List Char) : List Char :=
  '"' :: (name.toList ++ '"' :: ':' :: text)

section Members

variable {fuel : Nat} {text others : List Char} {value : Json}
  {members : List (String × Json)}

theorem ReadsMembers.last (name : String) (hname : name.toList.all isPlain = true)
    (h : Reads fuel text value) :
    ReadsMembers (fuel + 1) (memberText name text) [(name, value)] where
  quote := ⟨_, rfl⟩
  read := by
    intro k hk rest
    obtain ⟨k, rfl⟩ := Nat.exists_eq_add_of_le' (show 1 ≤ k by omega)
    have hcolon : skipBlanks (':' :: (text ++ '\x7d' :: rest)) =
        ':' :: (text ++ '\x7d' :: rest) := by rfl
    have hbrace : skipBlanks ('\x7d' :: rest) = '\x7d' :: rest := by rfl
    simp only [memberText, List.cons_append, List.append_assoc, readMembers,
      readText_of_plain (List.all_eq_true.mp hname), hcolon, skipBlanks_of_head h.not_blank,
      h.read k (by omega) _ (EndsNumeral.brace rest), hbrace, String.ofList_toList]

theorem ReadsMembers.cons (hothers : ReadsMembers fuel others members) (name : String)
    (hname : name.toList.all isPlain = true) (h : Reads fuel text value) :
    ReadsMembers (fuel + 1) (memberText name text ++ ',' :: others) ((name, value) :: members) where
  quote := ⟨_, rfl⟩
  read := by
    intro k hk rest
    obtain ⟨k, rfl⟩ := Nat.exists_eq_add_of_le' (show 1 ≤ k by omega)
    have hcolon (s : List Char) : skipBlanks (':' :: s) = ':' :: s := by rfl
    have hcomma (s : List Char) : skipBlanks (',' :: s) = ',' :: s := by rfl
    obtain ⟨cs, hcs⟩ := hothers.quote
    have hhead : ∃ c cs, others = c :: cs ∧ isBlank c = false := ⟨'"', cs, hcs, by decide⟩
    simp only [memberText, List.cons_append, List.append_assoc, readMembers,
      readText_of_plain (List.all_eq_true.mp hname), hcolon, skipBlanks_of_head h.not_blank,
      h.read k (by omega) _ (EndsNumeral.comma _), hcomma, skipBlanks_of_head hhead,
      hothers.read k (by omega), String.ofList_toList, Option.map_some]

/-- **Objects are read back** member by member. -/
theorem ReadsMembers.object (h : ReadsMembers fuel text members) :
    Reads (fuel + 1) ('\x7b' :: (text ++ ['\x7d'])) (object members) where
  not_blank := ⟨'\x7b', _, rfl, by decide⟩
  read := by
    intro k hk rest _
    obtain ⟨k, rfl⟩ := Nat.exists_eq_add_of_le' (show 1 ≤ k by omega)
    obtain ⟨cs, rfl⟩ := h.quote
    have hread := h.read k (by omega) rest
    have hquote (s : List Char) : skipBlanks ('"' :: s) = '"' :: s := by rfl
    rw [List.cons_append] at hread
    simp only [List.cons_append, List.append_assoc, List.nil_append, readValue, hquote]
    split
    · rename_i heq
      exact absurd (List.cons.inj heq).1 (by decide)
    · rw [hread, Option.map_some]

end Members

theorem parse?_eq {fuel : Nat} {s : String} {value : Json} (h : Reads fuel s.toList value)
    (hfuel : fuel ≤ 2 * s.length + 2) : parse? s = some value := by
  have hread := h.read _ hfuel [] trivial
  have hskip := skipBlanks_of_head h.not_blank []
  rw [List.append_nil] at hread hskip
  rw [parse?, hskip, hread]
  rfl

end BuildPlan.Json
