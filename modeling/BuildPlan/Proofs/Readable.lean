import BuildPlan.Proofs.Bytes
import BuildPlan.Proofs.Lines
import BuildPlan.Text.CLiteral
import Mathlib.Data.List.Basic
import Mathlib.Logic.Function.Defs
import Mathlib.Tactic.SplitIfs

/-!
# Texts that can be read from left to right

A way to write values is readable if each text tells the value that it was written for, and where it
ends, whatever follows it. Values that are written one after the other can then be told one after
the other, up to a text with which none of them starts (`readableBefore_writeEach`). C literals and
byte arrays are readable.
-/

namespace BuildPlan.Text

variable {α : Type}

/-- What is written for a value tells the value, and where the text ends. -/
def Readable (write : α → String) : Prop :=
  ∀ ⦃a b : α⦄ ⦃rest rest' : String⦄, write a ++ rest = write b ++ rest' → a = b ∧ rest = rest'

/-- What is written for a value tells the value in front of the text `stop`. -/
def ReadableBefore (stop : String) (write : α → String) : Prop :=
  Readable fun a => write a ++ stop

theorem ReadableBefore.apply {stop : String} {write : α → String} (h : ReadableBefore stop write)
    {a b : α} {rest rest' : String}
    (heq : write a ++ (stop ++ rest) = write b ++ (stop ++ rest')) : a = b ∧ rest = rest' := by
  rw [← String.append_assoc, ← String.append_assoc] at heq
  exact h heq

/-! ## Texts that start differently -/

def Apart (a b : String) : Prop :=
  ¬ a.toList <+: b.toList ∧ ¬ b.toList <+: a.toList

instance (a b : String) : Decidable (Apart a b) :=
  inferInstanceAs (Decidable (_ ∧ _))

theorem Apart.append_ne {a b : String} (h : Apart a b) (rest rest' : String) :
    a ++ rest ≠ b ++ rest' := by
  intro heq
  have hlist := congrArg String.toList heq
  rw [String.toList_append, String.toList_append] at hlist
  rcases List.prefix_or_prefix_of_prefix (List.prefix_append a.toList rest.toList)
    (hlist ▸ List.prefix_append b.toList rest'.toList) with hprefix | hprefix
  · exact h.1 hprefix
  · exact h.2 hprefix

/-! ## Sequences -/

/-- Values written one after the other, with the position of each. -/
def writeEach (write : Nat → α → String) (n : Nat) : List α → String
  | [] => ""
  | a :: as => write n a ++ writeEach write (n + 1) as

theorem readableBefore_writeEach {write : Nat → α → String} {stop : String}
    (h : ∀ n, Readable (write n))
    (hstop : ∀ n a rest rest', write n a ++ rest ≠ stop ++ rest') (n : Nat) :
    ReadableBefore stop (writeEach write n) := by
  have hread : ∀ as bs n rest rest', writeEach write n as ++ (stop ++ rest) =
      writeEach write n bs ++ (stop ++ rest') → as = bs ∧ rest = rest' := by
    intro as
    induction as with
    | nil =>
      intro bs n rest rest' heq
      cases bs with
      | nil => exact ⟨rfl, (String.append_right_inj _).mp ((String.append_right_inj _).mp heq)⟩
      | cons b bs =>
        rw [writeEach, writeEach, String.empty_append, String.append_assoc] at heq
        exact absurd heq.symm (hstop n b _ _)
    | cons a as ih =>
      intro bs n rest rest' heq
      cases bs with
      | nil =>
        rw [writeEach, writeEach, String.empty_append, String.append_assoc] at heq
        exact absurd heq (hstop n a _ _)
      | cons b bs =>
        rw [writeEach, writeEach, String.append_assoc, String.append_assoc] at heq
        obtain ⟨rfl, hrest⟩ := h n heq
        obtain ⟨rfl, rfl⟩ := ih bs (n + 1) rest rest' hrest
        exact ⟨rfl, rfl⟩
  intro as bs rest rest' heq
  rw [String.append_assoc, String.append_assoc] at heq
  exact hread as bs n rest rest' heq

theorem append_cons_inj {c : α} {xs ys rest rest' : List α} (hxs : c ∉ xs) (hys : c ∉ ys)
    (h : xs ++ c :: rest = ys ++ c :: rest') : xs = ys ∧ rest = rest' := by
  induction xs generalizing ys with
  | nil =>
    cases ys with
    | nil => exact ⟨rfl, (List.cons.inj h).2⟩
    | cons y ys => exact absurd ((List.cons.inj h).1 ▸ List.mem_cons_self) hys
  | cons x xs ih =>
    cases ys with
    | nil => exact absurd ((List.cons.inj h).1 ▸ List.mem_cons_self) hxs
    | cons y ys =>
      obtain ⟨rfl, htail⟩ := List.cons.inj h
      obtain ⟨rfl, hrest⟩ := ih (fun hc => hxs (List.mem_cons_of_mem _ hc))
        (fun hc => hys (List.mem_cons_of_mem _ hc)) htail
      exact ⟨rfl, hrest⟩

/-- A way to write values that never uses the first character of `stop` is readable in front of
it. -/
theorem readableBefore_of_notMem {write : α → String} (hinj : Function.Injective write)
    {stop : String} {c : Char} (hstop : stop.toList.head? = some c)
    (hc : ∀ a, c ∉ (write a).toList) : ReadableBefore stop write := by
  intro a b rest rest' heq
  obtain ⟨tail, htail⟩ := List.head?_eq_some_iff.mp hstop
  have hlist := congrArg String.toList heq
  simp only [String.toList_append, htail, List.append_assoc, List.cons_append] at hlist
  obtain ⟨hwrite, hrest⟩ := append_cons_inj (hc a) (hc b) hlist
  exact ⟨hinj (String.toList_inj.mp hwrite), String.toList_inj.mp (List.append_cancel_left hrest)⟩

theorem readable_ofList {write : α → List Char}
    (h : ∀ a b rest rest', write a ++ rest = write b ++ rest' → a = b ∧ rest = rest') :
    Readable fun a => String.ofList (write a) := by
  intro a b rest rest' heq
  have hlist := congrArg String.toList heq
  simp only [String.toList_append, String.toList_ofList] at hlist
  obtain ⟨hab, hrest⟩ := h a b _ _ hlist
  exact ⟨hab, String.toList_inj.mp hrest⟩

theorem exists_writeEach {write : Nat → α → String} {a : α} {as : List α} (h : a ∈ as) (n : Nat) :
    ∃ index front back, writeEach write n as = front ++ write index a ++ back := by
  induction as generalizing n with
  | nil => cases h
  | cons b as ih =>
    rcases List.mem_cons.mp h with rfl | h
    · exact ⟨n, "", writeEach write (n + 1) as, by rw [String.empty_append, writeEach]⟩
    · obtain ⟨index, front, back, hrest⟩ := ih h (n + 1)
      refine ⟨index, write n b ++ front, back, ?_⟩
      rw [writeEach, hrest]
      simp only [String.append_assoc]

theorem unlines_map (line : α → String) (n : Nat) (as : List α) :
    unlines (as.map line) = writeEach (fun _ a => unlines [line a]) n as := by
  induction as generalizing n with
  | nil => rfl
  | cons a as ih =>
    rw [List.map_cons, ← List.singleton_append, unlines_append, ih (n + 1), writeEach]

theorem ofList_flatMap (write : α → List Char) (n : Nat) (as : List α) :
    String.ofList (as.flatMap write) = writeEach (fun _ a => String.ofList (write a)) n as := by
  induction as generalizing n with
  | nil => rfl
  | cons a as ih => rw [List.flatMap_cons, String.ofList_append, ih (n + 1), writeEach]

/-! ## String literals -/

theorem octalDigit_injective {m n : Nat} (hm : m < 8) (hn : n < 8)
    (h : octalDigit m = octalDigit n) : m = n := by
  have hall : ∀ m < 8, ∀ n < 8, octalDigit m = octalDigit n → m = n := by decide
  exact hall m hm n hn h

theorem cByte_cases (b : UInt8) :
    (∃ c, cByte b = [c] ∧ c.toNat = b.toNat ∧ c ≠ '\\' ∧ c ≠ '"') ∨
    cByte b = ['\\', octalDigit (b.toNat / 64), octalDigit (b.toNat / 8 % 8),
      octalDigit (b.toNat % 8)] := by
  rw [cByte]
  split_ifs with hplain
  · obtain ⟨-, hhigh, hquote, hslash⟩ := hplain
    have hall : ∀ n < 0x7F, (Char.ofNat n).toNat = n := by decide
    have hcode : (Char.ofNat b.toNat).toNat = b.toNat := hall _ (UInt8.lt_iff_toNat_lt.mp hhigh)
    refine .inl ⟨_, rfl, hcode, ?_, ?_⟩
    · rintro h
      exact hslash (UInt8.toNat_inj.mp (hcode.symm.trans (congrArg Char.toNat h)))
    · rintro h
      exact hquote (UInt8.toNat_inj.mp (hcode.symm.trans (congrArg Char.toNat h)))
  · exact .inr rfl

theorem cByte_append_inj {a b : UInt8} {rest rest' : List Char}
    (h : cByte a ++ rest = cByte b ++ rest') : a = b ∧ rest = rest' := by
  have ha := a.toNat_lt
  have hb := b.toNat_lt
  rcases cByte_cases a with ⟨c, hwrite, hc, hslash, -⟩ | hwrite <;>
    rcases cByte_cases b with ⟨d, hwrite', hd, hslash', -⟩ | hwrite' <;>
    simp only [hwrite, hwrite', List.cons_append, List.nil_append, List.cons.injEq, true_and] at h
  · exact ⟨UInt8.toNat_inj.mp (by rw [← hc, ← hd, h.1]), h.2⟩
  · exact absurd h.1 hslash
  · exact absurd h.1.symm hslash'
  · obtain ⟨hhigh, hmid, hlow, hrest⟩ := h
    have hhigh := octalDigit_injective (by omega) (by omega) hhigh
    have hmid := octalDigit_injective (by omega) (by omega) hmid
    have hlow := octalDigit_injective (by omega) (by omega) hlow
    exact ⟨UInt8.toNat_inj.mp (by omega), hrest⟩

theorem cByte_ne_quote (b : UInt8) (rest rest' : List Char) : cByte b ++ rest ≠ '"' :: rest' := by
  rcases cByte_cases b with ⟨c, hwrite, -, -, hquote⟩ | hwrite
  · rw [hwrite]
    exact fun h => hquote (List.cons.inj h).1
  · rw [hwrite]
    exact fun h => absurd (List.cons.inj h).1 (by decide)

/-- **A string literal tells its text**, whatever follows it. -/
theorem readable_cLiteral : Readable cLiteral := by
  have hwrite : ∀ s, cLiteral s =
      "\"" ++ (writeEach (fun _ b => String.ofList (cByte b)) 0 (toUtf8 s) ++ "\"") := by
    intro s
    rw [← ofList_flatMap, ← String.toList_inj]
    simp [cLiteral]
  have hstop : ∀ b rest rest', String.ofList (cByte b) ++ rest ≠ "\"" ++ rest' := by
    intro b rest rest' h
    have hlist := congrArg String.toList h
    rw [String.toList_append, String.toList_append, String.toList_ofList] at hlist
    exact cByte_ne_quote b _ _ hlist
  intro s t rest rest' h
  simp only [hwrite, String.append_assoc, String.append_right_inj] at h
  obtain ⟨hbytes, hrest⟩ := (readableBefore_writeEach
    (fun _ => readable_ofList fun _ _ _ _ => cByte_append_inj) (fun _ => hstop) 0).apply h
  exact ⟨toUtf8_injective hbytes, hrest⟩

theorem exists_quote_append (s : String) : ∃ tail, cLiteral s = "\"" ++ tail := by
  refine ⟨String.ofList ((toUtf8 s).flatMap cByte ++ ['"']), ?_⟩
  rw [← String.toList_inj]
  simp [cLiteral]

/-! ## Byte arrays -/

theorem digitChar_injective {m n : Nat} (hm : m < 16) (hn : n < 16)
    (h : Nat.digitChar m = Nat.digitChar n) : m = n := by
  have hall : ∀ m < 16, ∀ n < 16, Nat.digitChar m = Nat.digitChar n → m = n := by decide
  exact hall m hm n hn h

theorem cByteConstant_append_inj {a b : UInt8} {rest rest' : List Char}
    (h : cByteConstant a ++ rest = cByteConstant b ++ rest') : a = b ∧ rest = rest' := by
  have ha := a.toNat_lt
  have hb := b.toNat_lt
  simp only [cByteConstant, cByteConstant.hexDigits, List.cons_append, List.nil_append,
    List.cons.injEq, true_and] at h
  obtain ⟨hhigh, hlow, hrest⟩ := h
  have hhigh := digitChar_injective (by omega) (by omega) hhigh
  have hlow := digitChar_injective (by omega) (by omega) hlow
  exact ⟨UInt8.toNat_inj.mp (by omega), hrest⟩

theorem ofList_cByteConstant (b : UInt8) :
    ∃ tail, String.ofList (cByteConstant b) = "'\\x" ++ tail := by
  refine ⟨String.ofList (cByteConstant.hexDigits b ++ ['\x27', ',']), ?_⟩
  rw [← String.toList_inj]
  simp [cByteConstant]

theorem flatten_runs (more : Nat) (xs : List α) : (runs more xs).flatten = xs := by
  fun_induction runs more xs with
  | case1 => rfl
  | case2 x xs ih => rw [List.flatten_cons, ih, List.cons_append, List.take_append_drop]

def rowText (indent : String) (run : List UInt8) : String :=
  unlines [indent ++ "  " ++ String.ofList (run.flatMap cByteConstant)]

theorem readable_rowText (indent : String) : Readable (rowText indent) := by
  intro run run' rest rest' h
  have hstop : ∀ b rest rest', String.ofList (cByteConstant b) ++ rest ≠ "\n" ++ rest' := by
    intro b rest rest'
    obtain ⟨tail, htail⟩ := ofList_cByteConstant b
    rw [htail, String.append_assoc]
    exact Apart.append_ne (by decide) _ _
  simp only [rowText, unlines, String.append_assoc, String.append_right_inj, ofList_flatMap _ 0,
    String.empty_append] at h
  exact (readableBefore_writeEach (fun _ => readable_ofList fun _ _ _ _ => cByteConstant_append_inj)
    (fun _ => hstop) 0).apply h

def arrayEnd (indent : String) : String :=
  unlines [indent ++ "  '\\0'", indent ++ "\x7d;"]

theorem unlines_cByteArray (indent name contents : String) :
    unlines (cByteArray indent name contents) =
      unlines [indent ++ "static char " ++ name ++ "[] = \x7b"] ++
        (writeEach (fun _ => rowText indent) 0 (runs 15 (toUtf8 contents)) ++ arrayEnd indent) := by
  rw [cByteArray, unlines_append, unlines_append, unlines_map _ 0, String.append_assoc]
  rfl

theorem rowText_append_ne (indent : String) (run : List UInt8) (rest rest' : String) :
    rowText indent run ++ rest ≠ arrayEnd indent ++ rest' := by
  simp only [rowText, arrayEnd, unlines, String.append_assoc, ne_eq, String.append_right_inj,
    show "  '\\0'" = "  " ++ "'\\0'" by decide]
  cases run with
  | nil =>
    rw [List.flatMap_nil, String.ofList_nil, String.empty_append]
    exact Apart.append_ne (by decide) _ _
  | cons b run =>
    obtain ⟨tail, htail⟩ := ofList_cByteConstant b
    rw [List.flatMap_cons, String.ofList_append, htail, String.append_assoc, String.append_assoc]
    exact Apart.append_ne (by decide) _ _

/-- **A byte array tells its text.** -/
theorem readable_cByteArray (indent name : String) :
    Readable fun contents => unlines (cByteArray indent name contents) := by
  intro s t rest rest' h
  simp only [unlines_cByteArray, String.append_assoc, String.append_right_inj] at h
  obtain ⟨hruns, hrest⟩ := (readableBefore_writeEach (fun _ => readable_rowText indent)
    (fun _ => rowText_append_ne indent) 0).apply h
  have hbytes := congrArg List.flatten hruns
  rw [flatten_runs, flatten_runs] at hbytes
  exact ⟨toUtf8_injective hbytes, hrest⟩

end BuildPlan.Text
