import BuildPlan.Text.Blank
import BuildPlan.Text.Hex
import BuildPlan.Text.Utf8

/-!
# Texts as bytes, bytes as digits

What is written is read back: a text from its UTF-8 bytes, and bytes from the UTF-8 bytes of their
hexadecimal digits. Trimming takes away the blanks around a text that has none itself.
-/

namespace BuildPlan.Text

/-! ## UTF-8 -/

theorem ofUtf8?_toUtf8 (s : String) : ofUtf8? (toUtf8 s) = some s := by
  have hbytes : (⟨(toUtf8 s).toArray⟩ : ByteArray) = s.toByteArray := by
    simp [toUtf8]
  rw [ofUtf8?, hbytes, String.fromUTF8?, dif_pos s.isValidUTF8]
  rfl

theorem toUtf8_injective {s t : String} (h : toUtf8 s = toUtf8 t) : s = t := by
  have hs := ofUtf8?_toUtf8 s
  rw [h, ofUtf8?_toUtf8] at hs
  exact (Option.some.inj hs).symm

theorem toUtf8_ofList (cs : List Char) :
    toUtf8 (String.ofList cs) = cs.flatMap String.utf8EncodeChar := by
  simp [toUtf8, List.utf8Encode]

/-! ## Hexadecimal digits -/

def hexDigits : List Char := "0123456789abcdef".toList

theorem hexDigit_mem_hexDigits {n : Nat} (hn : n < 16) : hexDigit n ∈ hexDigits := by
  have hall : ∀ n < 16, hexDigit n ∈ hexDigits := by decide
  exact hall n hn

theorem utf8EncodeChar_hexDigit {n : Nat} (hn : n < 16) :
    ∃ b, String.utf8EncodeChar (hexDigit n) = [b] ∧ hexValue? b = some (UInt8.ofNat n) := by
  have hall : ∀ n < 16, String.utf8EncodeChar (hexDigit n) = [UInt8.ofNat (hexDigit n).toNat] ∧
      hexValue? (UInt8.ofNat (hexDigit n).toNat) = some (UInt8.ofNat n) := by decide
  exact ⟨_, hall n hn⟩

theorem byte_of_halves (b : UInt8) :
    UInt8.ofNat (b.toNat / 16) * 16 + UInt8.ofNat (b.toNat % 16) = b := by
  have hb := b.toNat_lt
  rw [← UInt8.toNat_inj]
  simp only [UInt8.toNat_add, UInt8.toNat_mul, UInt8.toNat_ofNat', UInt8.reduceToNat]
  omega

theorem hexPairs_hexByte (position : Nat) (bytes : List UInt8) :
    hexPairs position ((bytes.flatMap hexByte).flatMap String.utf8EncodeChar) = .ok bytes := by
  induction bytes generalizing position with
  | nil => rfl
  | cons b bytes ih =>
    have hb := b.toNat_lt
    obtain ⟨hi, hhi, hhiValue⟩ := utf8EncodeChar_hexDigit (show b.toNat / 16 < 16 by omega)
    obtain ⟨lo, hlo, hloValue⟩ := utf8EncodeChar_hexDigit (show b.toNat % 16 < 16 by omega)
    simp only [List.flatMap_cons, hexByte, hhi, hlo,
      List.cons_append, List.nil_append, hexPairs, hhiValue, hloValue, ih,
      byte_of_halves]

theorem length_flatMap_hexByte (bytes : List UInt8) :
    (bytes.flatMap hexByte).length = 2 * bytes.length := by
  induction bytes with
  | nil => rfl
  | cons b bytes ih =>
    rw [List.flatMap_cons, List.length_append, ih, List.length_cons]
    simp only [hexByte, List.length_cons, List.length_nil]
    omega

theorem length_toHex (bytes : List UInt8) : (toHex bytes).length = 2 * bytes.length := by
  rw [toHex, String.length_ofList, length_flatMap_hexByte]

theorem mem_toHex {bytes : List UInt8} {c : Char} (hc : c ∈ (toHex bytes).toList) :
    c ∈ hexDigits := by
  rw [toHex, String.toList_ofList, List.mem_flatMap] at hc
  obtain ⟨b, -, hc⟩ := hc
  have hb := b.toNat_lt
  simp only [hexByte, List.mem_cons, List.not_mem_nil, or_false] at hc
  rcases hc with rfl | rfl
  · exact hexDigit_mem_hexDigits (by omega)
  · exact hexDigit_mem_hexDigits (by omega)

theorem length_utf8EncodeChar_of_mem_hexDigits {c : Char} (hc : c ∈ hexDigits) :
    (String.utf8EncodeChar c).length = 1 := by
  have hall : hexDigits.all (fun c => (String.utf8EncodeChar c).length == 1) = true := by decide
  exact eq_of_beq (List.all_eq_true.mp hall c hc)

theorem length_toUtf8_toHex (bytes : List UInt8) :
    (toUtf8 (toHex bytes)).length = 2 * bytes.length := by
  have hone : ∀ c ∈ bytes.flatMap hexByte, (String.utf8EncodeChar c).length = 1 := by
    intro c hc
    refine length_utf8EncodeChar_of_mem_hexDigits (mem_toHex (show c ∈ (toHex bytes).toList from ?_))
    rwa [toHex, String.toList_ofList]
  rw [toHex, toUtf8_ofList, List.length_flatMap, List.map_congr_left hone, List.map_const',
    List.sum_replicate_nat, length_flatMap_hexByte, Nat.mul_one]

theorem ofHex_toHex (bytes : List UInt8) : ofHex (toUtf8 (toHex bytes)) = .ok bytes := by
  have heven : ¬ (toUtf8 (toHex bytes)).length % 2 = 1 := by
    rw [length_toUtf8_toHex]
    omega
  rw [ofHex, if_neg heven, toHex, toUtf8_ofList, hexPairs_hexByte]

theorem toHex_injective {bytes others : List UInt8} (h : toHex bytes = toHex others) :
    bytes = others := by
  have hbytes := ofHex_toHex bytes
  rw [h, ofHex_toHex] at hbytes
  exact (Except.ok.inj hbytes).symm

/-! ## Blanks around a text -/

theorem isBlank_of_mem_hexDigits {c : Char} (hc : c ∈ hexDigits) : isBlank c = false := by
  have hall : hexDigits.all (fun c => isBlank c == false) = true := by decide
  exact eq_of_beq (List.all_eq_true.mp hall c hc)

theorem trimEnd_eq_nil {s : List Char} (hs : ∀ c ∈ s, isBlank c = true) : trimEnd s = [] := by
  induction s with
  | nil => rfl
  | cons c s ih =>
    rw [trimEnd, ih fun d hd => hs d (List.mem_cons_of_mem c hd)]
    exact if_pos (hs c List.mem_cons_self)

theorem trimEnd_append {s blanks : List Char} (hs : ∀ c ∈ s, isBlank c = false)
    (hblanks : ∀ c ∈ blanks, isBlank c = true) : trimEnd (s ++ blanks) = s := by
  induction s with
  | nil => exact trimEnd_eq_nil hblanks
  | cons c s ih =>
    have hc : isBlank c = false := hs c List.mem_cons_self
    rw [List.cons_append, trimEnd, ih fun d hd => hs d (List.mem_cons_of_mem c hd)]
    cases s with
    | nil => exact if_neg (Bool.not_eq_true _ ▸ hc)
    | cons d s => rfl

theorem trimEnd_concat_blank {s : List Char} {c : Char} (hc : isBlank c = true) :
    trimEnd (s ++ [c]) = trimEnd s := by
  induction s with
  | nil => exact if_pos hc
  | cons d s ih => rw [List.cons_append, trimEnd, trimEnd, ih]

theorem trimEnd_concat {s : List Char} {c : Char} (hc : isBlank c = false) :
    trimEnd (s ++ [c]) = s ++ [c] := by
  induction s with
  | nil => exact if_neg (by rw [hc]; exact Bool.false_ne_true)
  | cons d s ih =>
    rw [List.cons_append, trimEnd, ih]
    cases s <;> rfl

theorem trim_of_not_blank {s : List Char} (hfirst : ∀ c ∈ s.head?, isBlank c = false)
    (hlast : ∀ c ∈ s.getLast?, isBlank c = false) : trim s = s := by
  have hstart : trimStart s = s := by
    cases s with
    | nil => rfl
    | cons c s => exact List.dropWhile_cons_of_neg (by rw [hfirst c rfl]; exact Bool.false_ne_true)
  rw [trim, hstart]
  rcases List.eq_nil_or_concat s with rfl | ⟨t, c, rfl⟩
  · rfl
  · rw [List.concat_eq_append] at hlast ⊢
    exact trimEnd_concat (hlast c List.getLast?_concat)

theorem trimStart_append {blanks s : List Char} (hblanks : ∀ c ∈ blanks, isBlank c = true) :
    trimStart (blanks ++ s) = trimStart s := by
  rw [trimStart, List.dropWhile_append_of_pos hblanks, trimStart]

theorem trim_blanks {s before after : List Char} (hs : ∀ c ∈ s, isBlank c = false)
    (hbefore : ∀ c ∈ before, isBlank c = true) (hafter : ∀ c ∈ after, isBlank c = true) :
    trim (before ++ s ++ after) = s := by
  rw [trim, List.append_assoc, trimStart_append hbefore]
  cases s with
  | nil =>
    rw [List.nil_append, trimStart]
    exact trimEnd_eq_nil fun c hc => hafter c ((List.dropWhile_sublist _).subset hc)
  | cons c s =>
    have hc : ¬ isBlank c = true := by
      rw [hs c List.mem_cons_self]
      exact Bool.false_ne_true
    rw [List.cons_append, trimStart, List.dropWhile_cons_of_neg hc, ← List.cons_append,
      trimEnd_append hs hafter]

end BuildPlan.Text
