import BuildPlan.Proofs.CSource
import BuildPlan.Proofs.Lines
import Mathlib.Algebra.GroupWithZero.Nat
import Mathlib.Tactic.Tauto

/-!
# The bytes of string literals

How many bytes the string literals of a C source can have, all together. A character adds no more
than it takes in UTF-8 itself (`within_run`), and of the characters between two quotes all count
only if each stands for itself (`plain_or_lt`). A line that ends in a literal is no C, and a line
without quotes gives no bytes.
-/

namespace BuildPlan.CSource

/-! ## The bytes of all literals -/

def Token.size : Token → Nat
  | .string bytes => bytes.length
  | _ => 0

/-- The bytes of the string literals among tokens. -/
def stringBytes (ts : List Token) : Nat :=
  (ts.map Token.size).sum

theorem stringBytes_append (ts us : List Token) :
    stringBytes (ts ++ us) = stringBytes ts + stringBytes us := by
  simp [stringBytes]

/-- The bytes that text takes in UTF-8. -/
def encodedLength (cs : List Char) : Nat :=
  (cs.flatMap String.utf8EncodeChar).length

theorem encodedLength_cons (c : Char) (cs : List Char) :
    encodedLength (c :: cs) = (String.utf8EncodeChar c).length + encodedLength cs := by
  simp [encodedLength]

theorem length_utf8EncodeChar_pos (c : Char) : 0 < (String.utf8EncodeChar c).length := by
  rw [String.length_utf8EncodeChar]
  exact c.utf8Size_pos

theorem length_utf8EncodeChar_le (c : Char) : (String.utf8EncodeChar c).length ≤ 4 := by
  rw [String.length_utf8EncodeChar]
  exact c.utf8Size_le_four

/-- The bytes that an escape under way can come to have, as far as they are paid for by the
characters read. -/
def Escape.weight : Escape → Nat
  | .outside => 0
  | .started => 0
  | .octal _ _ => 1
  | .hex none => 0
  | .hex (some _) => 1
  | .universal left _ => 4 - left

/-- The bytes of the string literal under way. -/
def State.weight : State → Nat
  | .literal .double bytes e => bytes.length + e.weight
  | _ => 0

def State.isOutside : State → Bool
  | .literal _ _ _ => false
  | _ => true

/-- What a step gives has no more bytes than that. -/
def Step.Within (s : Step) (n : Nat) : Prop :=
  ∀ ts st, s = some (ts, st) → stringBytes ts + st.weight ≤ n

theorem within_some {ts : List Token} {st : State} {n : Nat}
    (h : stringBytes ts + st.weight ≤ n) : Step.Within (some (ts, st)) n := by
  rintro us st' hsome
  obtain ⟨rfl, rfl⟩ := Prod.mk.inj (Option.some.inj hsome)
  exact h

theorem within_none (n : Nat) : Step.Within none n := by
  rintro ts st h
  cases h

theorem within_nextToken (c : Char) (n : Nat) : (nextToken c).Within n := by
  rw [nextToken]
  split_ifs
  · exact within_some (Nat.zero_le n)
  · exact within_some (Nat.zero_le n)
  · exact within_some (Nat.zero_le n)
  · exact within_none n
  · cases quote? c with
    | none => exact within_some (Nat.zero_le n)
    | some q => cases q <;> exact within_some (Nat.zero_le n)

theorem within_emit {t : Token} (ht : t.size = 0) {s : Step} {n : Nat} (h : s.Within n) :
    (s.emit t).Within n := by
  rintro ts st hemit
  obtain ⟨r, hr, hpair⟩ := Option.map_eq_some_iff.mp hemit
  obtain ⟨rfl, rfl⟩ := Prod.mk.inj hpair
  have hstep := h r.1 r.2 hr
  simp only [stringBytes, List.map_cons, List.sum_cons, ht, Nat.zero_add] at hstep ⊢
  exact hstep

section Literals

variable {q : Quote} {bytes : Bytes} {c : Char} {n : Nat}

/-- Only literals in double quotes count. -/
theorem within_literal {e : Escape} (h : q = .double → bytes.length + e.weight ≤ n) :
    Step.Within (some ([], .literal q bytes e)) n := by
  apply within_some
  cases q with
  | double => simpa [stringBytes, State.weight] using h rfl
  | single => exact Nat.zero_le n

theorem within_plain (h : q = .double → bytes.length + (String.utf8EncodeChar c).length ≤ n) :
    (plain q bytes c).Within n := by
  rw [plain]
  split_ifs
  · rintro ts st hstep
    obtain ⟨t, ht, hpair⟩ := Option.map_eq_some_iff.mp hstep
    obtain ⟨rfl, rfl⟩ := Prod.mk.inj hpair
    cases q with
    | double =>
      obtain rfl := Option.some.inj ht
      have hn := h rfl
      simp only [stringBytes, Token.size, State.weight, List.map_cons, List.map_nil, List.sum_cons,
        List.sum_nil]
      omega
    | single =>
      rw [Quote.token?.eq_def] at ht
      split at ht
      · rename_i hquote
        cases hquote
      · obtain rfl := Option.some.inj ht
        exact Nat.zero_le n
      · cases ht
  · exact within_none n
  · refine within_literal fun hq => ?_
    have hn := h hq
    rw [Escape.weight]
    omega
  · refine within_literal fun hq => ?_
    have hn := h hq
    rw [Escape.weight, List.length_append]
    omega

theorem within_startEscape
    (h : q = .double → bytes.length + (String.utf8EncodeChar c).length ≤ n) :
    (startEscape q bytes c).Within n := by
  have hpos := length_utf8EncodeChar_pos c
  have hshort : ∀ e : Escape, e.weight ≤ 1 → Step.Within (some ([], .literal q bytes e)) n := by
    intro e he
    refine within_literal fun hq => ?_
    have hn := h hq
    omega
  rw [startEscape]
  split
  · refine within_literal fun hq => ?_
    have hn := h hq
    rw [Escape.weight, List.length_append, List.length_singleton]
    omega
  · exact hshort _ (Nat.le_refl 1)
  · split_ifs
    · exact hshort _ (Nat.zero_le 1)
    · exact hshort _ (Nat.zero_le 1)
    · exact hshort _ (Nat.zero_le 1)
    · exact within_none n

theorem within_endEscape {value : Nat}
    (h : q = .double → bytes.length + 1 + (String.utf8EncodeChar c).length ≤ n) :
    (endEscape q bytes value c).Within n := by
  rintro ts st hstep
  obtain ⟨b, -, hplain⟩ := Option.bind_eq_some_iff.mp hstep
  refine within_plain (fun hq => ?_) ts st hplain
  rw [List.length_append, List.length_singleton]
  exact h hq

theorem length_universal? {value : Nat} {more : Bytes} (h : universal? value = some more) :
    more.length ≤ 4 := by
  rw [universal?] at h
  split_ifs at h
  obtain rfl := Option.some.inj h
  exact length_utf8EncodeChar_le _

theorem within_octal {left value : Nat}
    (h : q = .double → bytes.length + 1 + (String.utf8EncodeChar c).length ≤ n) :
    (inLiteral q bytes c (.octal left value)).Within n := by
  rw [inLiteral]
  cases octalDigit? c with
  | none => exact within_endEscape h
  | some d =>
    simp only
    split_ifs
    · cases byte? (8 * value + d) with
      | none => exact within_none n
      | some b =>
        refine within_literal fun hq => ?_
        have hn := h hq
        rw [Escape.weight, List.length_append, List.length_singleton]
        omega
    · refine within_literal fun hq => ?_
      have hn := h hq
      rw [Escape.weight]
      omega

theorem within_hex {value : Option Nat}
    (h : q = .double →
      bytes.length + (Escape.hex value).weight + (String.utf8EncodeChar c).length ≤ n) :
    (inLiteral q bytes c (.hex value)).Within n := by
  have hpos := length_utf8EncodeChar_pos c
  cases hdigit : Text.hexDigitValue? c with
  | some d =>
    simp only [inLiteral, hdigit]
    refine within_literal fun hq => ?_
    have hn := h hq
    rw [Escape.weight]
    omega
  | none =>
    simp only [inLiteral, hdigit]
    cases value with
    | none => exact within_none n
    | some value => exact within_endEscape h

theorem within_universal {left value : Nat}
    (h : q = .double → bytes.length + (4 - left) + (String.utf8EncodeChar c).length ≤ n) :
    (inLiteral q bytes c (.universal left value)).Within n := by
  have hpos := length_utf8EncodeChar_pos c
  rw [inLiteral]
  cases Text.hexDigitValue? c with
  | none => exact within_none n
  | some d =>
    rw [Option.bind_some]
    split_ifs with hleft
    · rintro ts st hstep
      obtain ⟨more, hmore, hpair⟩ := Option.map_eq_some_iff.mp hstep
      have hlength := length_universal? hmore
      refine within_literal (fun hq => ?_) ts st (congrArg some hpair)
      have hn := h hq
      rw [Escape.weight, List.length_append]
      omega
    · refine within_literal fun hq => ?_
      have hn := h hq
      rw [Escape.weight]
      omega

theorem within_inLiteral {e : Escape}
    (h : q = .double → bytes.length + e.weight + (String.utf8EncodeChar c).length ≤ n) :
    (inLiteral q bytes c e).Within n := by
  cases e with
  | outside => exact within_plain h
  | started => exact within_startEscape h
  | octal left value => exact within_octal h
  | hex value => exact within_hex h
  | universal left value => exact within_universal h

end Literals

/-- **A character adds no more bytes than its own.** -/
theorem within_take (st : State) (c : Char) :
    (st.take c).Within (st.weight + (String.utf8EncodeChar c).length) := by
  cases st with
  | between => exact within_nextToken c _
  | word w =>
    rw [State.take]
    split_ifs
    · exact within_some (Nat.zero_le _)
    · exact within_none _
    · exact within_emit rfl (within_nextToken c _)
  | slash =>
    rw [State.take]
    split_ifs
    · exact within_some (Nat.zero_le _)
    · exact within_some (Nat.zero_le _)
    · exact within_emit rfl (within_nextToken c _)
  | comment =>
    rw [State.take]
    split_ifs <;> exact within_some (Nat.zero_le _)
  | block starred =>
    rw [State.take]
    split_ifs <;> exact within_some (Nat.zero_le _)
  | literal q bytes e =>
    refine within_inLiteral fun hq => ?_
    subst hq
    exact Nat.le_refl _

theorem within_run (st : State) (cs : List Char) :
    (run st cs).Within (st.weight + encodedLength cs) := by
  induction cs generalizing st with
  | nil => exact within_some (by simp [stringBytes])
  | cons c cs ih =>
    rintro ts st' hrun
    obtain ⟨us, st₁, vs, htake, hcs, rfl⟩ := run_cons_eq_some hrun
    have hfirst := within_take st c us st₁ htake
    have hrest := ih st₁ vs st' hcs
    rw [stringBytes_append, encodedLength_cons]
    omega

theorem block_lt {starred : Bool} {c : Char} {cs : List Char} {ts : List Token} {st : State}
    (h : run (.block starred) (c :: cs) = some (ts, st)) :
    stringBytes ts + st.weight < encodedLength (c :: cs) := by
  have hpos := length_utf8EncodeChar_pos c
  have hweight : ∀ p : Prop, [Decidable p] →
      (if p then State.between else .block (c == '*')).weight = 0 := by
    intro p _
    split_ifs <;> rfl
  obtain ⟨us, st₁, vs, htake, hcs, rfl⟩ := run_cons_eq_some h
  obtain ⟨rfl, rfl⟩ := Prod.mk.inj (Option.some.inj htake)
  have hrest := within_run _ _ vs st hcs
  rw [hweight, Nat.zero_add] at hrest
  rw [List.nil_append, encodedLength_cons]
  omega

/-! ## Texts between quotes -/

/-- A character that stands for itself in a string literal. -/
def isPlain (c : Char) : Bool :=
  c != '"' && c != '\\' && c != '\n' && c != '\r'

theorem isPlain_iff {c : Char} :
    isPlain c = true ↔ c ≠ '"' ∧ c ≠ '\\' ∧ c ≠ '\n' ∧ c ≠ '\r' := by
  simp [isPlain, and_assoc]

theorem take_plain {c : Char} (h : isPlain c = true) (bytes : Bytes) :
    (State.literal .double bytes .outside).take c =
      some ([], .literal .double (bytes ++ String.utf8EncodeChar c) .outside) := by
  obtain ⟨hquote, hslash, hline, hreturn⟩ := isPlain_iff.mp h
  exact plain_of_ne hquote hline hreturn hslash bytes

theorem run_plain {cs : List Char} (h : ∀ c ∈ cs, isPlain c = true) (bytes : Bytes) :
    run (.literal .double bytes .outside) cs =
      some ([], .literal .double (bytes ++ cs.flatMap String.utf8EncodeChar) .outside) := by
  induction cs generalizing bytes with
  | nil => simp [run]
  | cons c cs ih =>
    rw [run_cons (take_plain (h c List.mem_cons_self) bytes),
      ih fun d hd => h d (List.mem_cons_of_mem c hd)]
    simp

/-- **A text between quotes either stands for itself or comes short.** -/
theorem plain_or_lt {cs : List Char} {bytes : Bytes} {ts : List Token} {st : State}
    (hrun : run (.literal .double bytes .outside) cs = some (ts, st)) :
    (∀ c ∈ cs, isPlain c = true) ∨
      stringBytes ts + st.weight < bytes.length + encodedLength cs := by
  induction cs generalizing bytes ts with
  | nil => exact .inl (by simp)
  | cons c cs ih =>
    have hpos := length_utf8EncodeChar_pos c
    obtain ⟨us, st₁, vs, htake, hcs, rfl⟩ := run_cons_eq_some hrun
    have hshort : stringBytes us + st₁.weight ≤ bytes.length →
        stringBytes (us ++ vs) + st.weight < bytes.length + encodedLength (c :: cs) := by
      intro hle
      have hrest := within_run st₁ cs vs st hcs
      rw [stringBytes_append, encodedLength_cons]
      omega
    by_cases hplain : isPlain c = true
    · rw [take_plain hplain bytes] at htake
      obtain ⟨rfl, rfl⟩ := Prod.mk.inj (Option.some.inj htake)
      refine (ih hcs).imp (fun hcs => List.forall_mem_cons.mpr ⟨hplain, hcs⟩) fun hlt => ?_
      rw [List.length_append] at hlt
      rw [List.nil_append, encodedLength_cons]
      omega
    · by_cases hquote : c = '"'
      · subst hquote
        obtain ⟨rfl, rfl⟩ := Prod.mk.inj (Option.some.inj htake)
        exact .inr (hshort (by simp [stringBytes, Token.size, State.weight]))
      · by_cases hslash : c = '\\'
        · subst hslash
          obtain ⟨rfl, rfl⟩ := Prod.mk.inj (Option.some.inj htake)
          exact .inr (hshort (by simp [stringBytes, State.weight, Escape.weight]))
        · -- what is left ends the line
          have hend : c = '\n' ∨ c = '\r' := by
            simp only [isPlain, Bool.and_eq_true, bne_iff_ne, hquote, hslash, ne_eq,
              not_false_eq_true, true_and] at hplain
            tauto
          rcases hend with rfl | rfl <;> cases htake

/-! ## Lines without quotes -/

/-- Where the reader is behind the end of a line. -/
def State.AtLine (st : State) : Prop :=
  st = .between ∨ st = .block false

theorem State.AtLine.isOutside {st : State} (h : st.AtLine) : st.isOutside = true := by
  rcases h with rfl | rfl <;> rfl

theorem outside_nextToken {c : Char} (hc : quote? c = none) {ts : List Token} {st : State}
    (h : nextToken c = some (ts, st)) : stringBytes ts = 0 ∧ st.isOutside = true := by
  rw [nextToken, hc] at h
  split_ifs at h
  all_goals
    obtain ⟨rfl, rfl⟩ := Prod.mk.inj (Option.some.inj h)
    exact ⟨rfl, rfl⟩

theorem outside_take {st st' : State} (hst : st.isOutside = true) {c : Char}
    (hc : quote? c = none) {ts : List Token} (h : st.take c = some (ts, st')) :
    stringBytes ts = 0 ∧ st'.isOutside = true := by
  have hemit : ∀ {t : Token}, t.size = 0 → (nextToken c).emit t = some (ts, st') →
      stringBytes ts = 0 ∧ st'.isOutside = true := by
    intro t ht hemit
    obtain ⟨r, hr, hpair⟩ := Option.map_eq_some_iff.mp hemit
    obtain ⟨rfl, rfl⟩ := Prod.mk.inj hpair
    obtain ⟨hbytes, houtside⟩ := outside_nextToken hc hr
    rw [stringBytes, List.map_cons, List.sum_cons, ht]
    exact ⟨by rw [Nat.zero_add]; exact hbytes, houtside⟩
  cases st with
  | between => exact outside_nextToken hc h
  | word w =>
    rw [State.take] at h
    split_ifs at h
    · obtain ⟨rfl, rfl⟩ := Prod.mk.inj (Option.some.inj h)
      exact ⟨rfl, rfl⟩
    · exact hemit rfl h
  | slash =>
    rw [State.take] at h
    split_ifs at h
    · obtain ⟨rfl, rfl⟩ := Prod.mk.inj (Option.some.inj h)
      exact ⟨rfl, rfl⟩
    · obtain ⟨rfl, rfl⟩ := Prod.mk.inj (Option.some.inj h)
      exact ⟨rfl, rfl⟩
    · exact hemit rfl h
  | comment =>
    obtain ⟨rfl, rfl⟩ := Prod.mk.inj (Option.some.inj h)
    split_ifs <;> exact ⟨rfl, rfl⟩
  | block starred =>
    obtain ⟨rfl, rfl⟩ := Prod.mk.inj (Option.some.inj h)
    split_ifs <;> exact ⟨rfl, rfl⟩
  | literal q bytes e => cases hst

theorem take_newline {st st' : State} (hst : st.isOutside = true) {ts : List Token}
    (h : st.take '\n' = some (ts, st')) : st'.AtLine := by
  cases st with
  | literal q bytes e => cases hst
  | block starred =>
    obtain ⟨-, rfl⟩ := Prod.mk.inj (Option.some.inj h)
    exact .inr (by simp)
  | _ =>
    obtain ⟨-, rfl⟩ := Prod.mk.inj (Option.some.inj h)
    exact .inl rfl

theorem outside_line {cs : List Char} (hcs : ∀ c ∈ cs, quote? c = none) {st st' : State}
    (hst : st.isOutside = true) {ts : List Token} (h : run st (cs ++ ['\n']) = some (ts, st')) :
    stringBytes ts = 0 ∧ st'.AtLine := by
  induction cs generalizing st ts with
  | nil =>
    obtain ⟨us, st₁, vs, htake, hend, rfl⟩ := run_cons_eq_some h
    obtain ⟨rfl, rfl⟩ := Prod.mk.inj (Option.some.inj hend)
    rw [List.append_nil]
    exact ⟨(outside_take hst rfl htake).1, take_newline hst htake⟩
  | cons c cs ih =>
    obtain ⟨hc, hcs⟩ := List.forall_mem_cons.mp hcs
    obtain ⟨us, st₁, vs, htake, hend, rfl⟩ := run_cons_eq_some h
    obtain ⟨hbytes, houtside⟩ := outside_take hst hc htake
    obtain ⟨hrest, hline⟩ := ih hcs houtside hend
    exact ⟨by rw [stringBytes_append, hbytes, hrest], hline⟩

/-! ## Literals that are open at the end of a line -/

theorem endEscape_newline (q : Quote) (bytes : Bytes) (value : Nat) :
    endEscape q bytes value '\n' = none := by
  rw [endEscape]
  cases byte? value with
  | none => rfl
  | some b => cases q <;> rfl

theorem literal_newline (q : Quote) (bytes : Bytes) (e : Escape) :
    (State.literal q bytes e).take '\n' = none := by
  cases e with
  | outside => cases q <;> rfl
  | started => rfl
  | octal left value => exact endEscape_newline q bytes value
  | hex value =>
    cases value with
    | none => rfl
    | some value => exact endEscape_newline q bytes value
  | universal left value => rfl

/-- The step stays in a literal with those quotes. -/
def Step.Inside (q : Quote) (s : Step) : Prop :=
  ∀ ts st, s = some (ts, st) → ∃ bytes e, st = .literal q bytes e

section Inside

variable {q : Quote} {c : Char}

theorem inside_some (ts : List Token) (bytes : Bytes) (e : Escape) :
    Step.Inside q (some (ts, .literal q bytes e)) := by
  rintro us st h
  obtain ⟨-, rfl⟩ := Prod.mk.inj (Option.some.inj h)
  exact ⟨bytes, e, rfl⟩

theorem inside_none : Step.Inside q none := by
  rintro ts st h
  cases h

theorem inside_plain (hc : c ≠ q.char) (bytes : Bytes) : (plain q bytes c).Inside q := by
  rw [plain, if_neg hc]
  split_ifs
  · exact inside_none
  · exact inside_some _ _ _
  · exact inside_some _ _ _

theorem inside_endEscape (hc : c ≠ q.char) (bytes : Bytes) (value : Nat) :
    (endEscape q bytes value c).Inside q := by
  rw [endEscape]
  cases byte? value with
  | none => exact inside_none
  | some b => exact inside_plain hc _

theorem inside_take (hc : c ≠ q.char) (bytes : Bytes) (e : Escape) :
    ((State.literal q bytes e).take c).Inside q := by
  cases e with
  | outside => exact inside_plain hc bytes
  | started =>
    show (startEscape q bytes c).Inside q
    rw [startEscape]
    split
    · exact inside_some _ _ _
    · exact inside_some _ _ _
    · split_ifs
      · exact inside_some _ _ _
      · exact inside_some _ _ _
      · exact inside_some _ _ _
      · exact inside_none
  | octal left value =>
    rw [State.take, inLiteral]
    cases octalDigit? c with
    | none => exact inside_endEscape hc bytes value
    | some d =>
      simp only
      split_ifs
      · cases byte? (8 * value + d) with
        | none => exact inside_none
        | some b => exact inside_some _ _ _
      · exact inside_some _ _ _
  | hex value =>
    cases hdigit : Text.hexDigitValue? c with
    | some d =>
      simp only [State.take, inLiteral, hdigit]
      exact inside_some _ _ _
    | none =>
      simp only [State.take, inLiteral, hdigit]
      cases value with
      | none => exact inside_none
      | some value => exact inside_endEscape hc bytes value
  | universal left value =>
    rw [State.take, inLiteral]
    cases Text.hexDigitValue? c with
    | none => exact inside_none
    | some d =>
      rw [Option.bind_some]
      split_ifs
      · cases universal? (16 * value + d) with
        | none => exact inside_none
        | some more => exact inside_some _ _ _
      · exact inside_some _ _ _

theorem ne_char_of_quote? (h : quote? c = none) (q : Quote) : c ≠ q.char := by
  rintro rfl
  cases q <;> cases h

theorem literal_line {cs : List Char} (hcs : ∀ c ∈ cs, quote? c = none) (bytes : Bytes)
    (e : Escape) : run (.literal q bytes e) (cs ++ ['\n']) = none := by
  induction cs generalizing bytes e with
  | nil => rw [List.nil_append, run, literal_newline, Option.bind_none]
  | cons c cs ih =>
    obtain ⟨hc, hcs⟩ := List.forall_mem_cons.mp hcs
    rw [List.cons_append, run, Option.bind_eq_none_iff]
    intro r hr
    obtain ⟨bytes', e', hst⟩ := inside_take (ne_char_of_quote? hc q) bytes e r.1 r.2 hr
    rw [hst, ih hcs, Option.map_none]

end Inside

theorem take_quote {st st' : State} {ts : List Token} (h : st.take '"' = some (ts, st')) :
    (∃ q bytes e, st' = .literal q bytes e) ∨
      (st'.isOutside = true ∧ stringBytes ts ≤ st.weight) := by
  have hend : ∀ {bytes : Bytes} {value : Nat},
      endEscape .double bytes value '"' = some (ts, st') →
      st'.isOutside = true ∧ stringBytes ts ≤ bytes.length + 1 := by
    intro bytes value hend
    obtain ⟨b, -, hb⟩ := Option.bind_eq_some_iff.mp hend
    obtain ⟨rfl, rfl⟩ := Prod.mk.inj (Option.some.inj hb)
    exact ⟨rfl, by simp [stringBytes, Token.size]⟩
  cases st with
  | between =>
    obtain ⟨-, rfl⟩ := Prod.mk.inj (Option.some.inj h)
    exact .inl ⟨_, _, _, rfl⟩
  | word w =>
    rw [State.take, if_neg (by decide)] at h
    split_ifs at h
    obtain ⟨-, rfl⟩ := Prod.mk.inj (Option.some.inj h)
    exact .inl ⟨_, _, _, rfl⟩
  | slash =>
    obtain ⟨-, rfl⟩ := Prod.mk.inj (Option.some.inj h)
    exact .inl ⟨_, _, _, rfl⟩
  | comment =>
    obtain ⟨rfl, rfl⟩ := Prod.mk.inj (Option.some.inj h)
    exact .inr ⟨rfl, Nat.zero_le _⟩
  | block starred =>
    obtain ⟨rfl, rfl⟩ := Prod.mk.inj (Option.some.inj h)
    exact .inr ⟨by simp [State.isOutside], Nat.zero_le _⟩
  | literal q bytes e =>
    cases q with
    | single =>
      obtain ⟨bytes', e', rfl⟩ := inside_take (by decide) bytes e ts st' h
      exact .inl ⟨_, _, _, rfl⟩
    | double =>
      cases e with
      | outside =>
        obtain ⟨rfl, rfl⟩ := Prod.mk.inj (Option.some.inj h)
        exact .inr ⟨rfl, by simp [stringBytes, Token.size, State.weight]⟩
      | started =>
        obtain ⟨-, rfl⟩ := Prod.mk.inj (Option.some.inj h)
        exact .inl ⟨_, _, _, rfl⟩
      | octal left value => exact .inr (hend h)
      | hex value =>
        cases value with
        | none => cases h
        | some value => exact .inr (hend h)
      | universal left value => cases h

/-! ## Joined lines -/

theorem splice_eq_or_lt (cs : List Char) :
    splice cs = cs ∨ encodedLength (splice cs) < encodedLength cs := by
  induction cs using splice.induct with
  | case1 cs ih =>
    have hpos := length_utf8EncodeChar_pos '\\'
    right
    rw [splice, encodedLength_cons, encodedLength_cons]
    rcases ih with heq | hlt
    · rw [heq]
      omega
    · omega
  | case2 c cs hno ih =>
    rw [splice.eq_2 c cs hno, encodedLength_cons, encodedLength_cons]
    rcases ih with heq | hlt
    · exact .inl (by rw [heq])
    · exact .inr (by omega)
  | case3 => exact .inl rfl

/-! ## Texts of whole lines -/

/-- A character that is not part of a literal in any state. -/
def isQuiet (c : Char) : Bool :=
  (quote? c).isNone && c != '\\'

theorem quote?_of_isDigit {c : Char} (h : c.isDigit = true) : quote? c = none := by
  rw [quote?, if_neg, if_neg]
  all_goals
    rintro rfl
    exact absurd h (by decide)

/-- All characters of the text are of that kind. -/
def Consists (kind : Char → Bool) (s : String) : Prop :=
  ∀ c ∈ s.toList, kind c = true

theorem consists_ofList {kind : Char → Bool} {cs : List Char} (h : cs.all kind = true) :
    Consists kind (String.ofList cs) := by
  rw [Consists, String.toList_ofList]
  exact List.all_eq_true.mp h

theorem Consists.append {kind : Char → Bool} {s t : String} (hs : Consists kind s)
    (ht : Consists kind t) : Consists kind (s ++ t) := by
  intro c hc
  rw [String.toList_append, List.mem_append] at hc
  exact hc.elim (hs c) (ht c)

theorem consists_unlines {kind : Char → Bool} (hline : kind '\n' = true) {ls : List String}
    (hls : ∀ l ∈ ls, Consists kind l) : Consists kind (Text.unlines ls) := by
  intro c hc
  rw [Text.toList_unlines, List.mem_flatMap] at hc
  obtain ⟨l, hl, hc⟩ := hc
  rcases List.mem_append.mp hc with hc | hc
  · exact hls l hl c hc
  · obtain rfl := List.mem_singleton.mp hc
    exact hline

/-- A character that leaves the reader between tokens or in a word. -/
def isBland (c : Char) : Bool :=
  isQuiet c && c != '/'

theorem isBland_of_isDigit {c : Char} (h : c.isDigit = true) : isBland c = true := by
  have hne : ∀ d : Char, d.isDigit = false → c ≠ d := by
    rintro d hd rfl
    rw [hd] at h
    cases h
  have hslash := hne '/' (by decide)
  have hback := hne '\\' (by decide)
  simp [isBland, isQuiet, quote?_of_isDigit h, hslash, hback]

theorem bland_repr (n : Nat) : Consists isBland (Nat.repr n) := by
  intro c hc
  rw [Nat.toList_repr] at hc
  exact isBland_of_isDigit (Text.isDigit_of_mem_toDigits hc)

theorem Consists.quiet {s : String} (h : Consists isBland s) : Consists isQuiet s := by
  intro c hc
  have hbland := h c hc
  rw [isBland, Bool.and_eq_true] at hbland
  exact hbland.1

theorem quote?_of_isQuiet {c : Char} (h : isQuiet c = true) : quote? c = none := by
  rw [isQuiet, Bool.and_eq_true, Option.isNone_iff_eq_none] at h
  exact h.1

theorem Consists.splice_eq {s : String} (h : Consists isQuiet s) : splice s.toList = s.toList := by
  apply splice_of_backslash_notMem
  intro hmem
  exact absurd (h _ hmem) (by decide)

def EndsLine (s : String) : Prop :=
  s.toList.getLast? = some '\n'

instance (s : String) : Decidable (EndsLine s) :=
  inferInstanceAs (Decidable (_ = _))

theorem EndsLine.append {t : String} (ht : EndsLine t) (s : String) : EndsLine (s ++ t) := by
  rw [EndsLine] at ht ⊢
  rw [String.toList_append, List.getLast?_append, ht]
  rfl

theorem Consists.run_eq {s : String} (h : Consists isQuiet s) (hend : EndsLine s)
    {st st' : State} (hst : st.isOutside = true) {ts : List Token}
    (hrun : run st s.toList = some (ts, st')) : stringBytes ts = 0 ∧ st'.AtLine := by
  obtain ⟨front, hfront⟩ := List.getLast?_eq_some_iff.mp hend
  rw [hfront] at hrun
  refine outside_line (fun c hc => quote?_of_isQuiet (h c ?_)) hst hrun
  rw [hfront]
  exact List.mem_append_left _ hc

/-- Where bland characters leave the reader. -/
def State.IsBland (st : State) : Prop :=
  st = .between ∨ ∃ w, st = .word w

theorem bland_nextToken {c : Char} (hc : isBland c = true) :
    ∃ ts st, nextToken c = some (ts, st) ∧ st.IsBland := by
  simp only [isBland, isQuiet, Bool.and_eq_true, Option.isNone_iff_eq_none, bne_iff_ne] at hc
  obtain ⟨⟨hquote, hback⟩, hslash⟩ := hc
  rw [nextToken, hquote, if_neg hslash, if_neg hback]
  split_ifs
  · exact ⟨_, _, rfl, .inl rfl⟩
  · exact ⟨_, _, rfl, .inr ⟨_, rfl⟩⟩
  · exact ⟨_, _, rfl, .inl rfl⟩

theorem bland_take {st : State} (hst : st.IsBland) {c : Char} (hc : isBland c = true) :
    ∃ ts st', st.take c = some (ts, st') ∧ st'.IsBland := by
  obtain ⟨ts, st', hnext, hst'⟩ := bland_nextToken hc
  rcases hst with rfl | ⟨w, rfl⟩
  · exact ⟨ts, st', hnext, hst'⟩
  · rw [State.take]
    split_ifs with hletter hquote
    · exact ⟨_, _, rfl, .inr ⟨_, rfl⟩⟩
    · simp only [isBland, Bool.and_eq_true] at hc
      rw [quote?_of_isQuiet hc.1] at hquote
      cases hquote.1
    · exact ⟨.word w :: ts, st', by rw [hnext]; rfl, hst'⟩

theorem bland_run {cs : List Char} (hcs : ∀ c ∈ cs, isBland c = true) {st : State}
    (hst : st.IsBland) : ∃ ts st', run st cs = some (ts, st') ∧ st'.IsBland := by
  induction cs generalizing st with
  | nil => exact ⟨[], st, rfl, hst⟩
  | cons c cs ih =>
    obtain ⟨hc, hcs⟩ := List.forall_mem_cons.mp hcs
    obtain ⟨ts, st', htake, hst'⟩ := bland_take hst hc
    obtain ⟨us, st'', hrest, hst''⟩ := ih hcs hst'
    exact ⟨ts ++ us, st'', by rw [run_cons htake, hrest]; rfl, hst''⟩

theorem exists_reads_of_bland {s : String} (h : Consists isBland s) (hend : EndsLine s) :
    ∃ ts, Reads s ts := by
  obtain ⟨front, hfront⟩ := List.getLast?_eq_some_iff.mp hend
  have hbland : ∀ c ∈ front, isBland c = true := by
    intro c hc
    apply h c
    rw [hfront]
    exact List.mem_append_left _ hc
  obtain ⟨ts, st, hrun, hst⟩ := bland_run hbland (Or.inl rfl : State.between.IsBland)
  obtain ⟨us, hlast⟩ : ∃ us, run st ['\n'] = some (us, .between) := by
    rcases hst with rfl | ⟨w, rfl⟩ <;> exact ⟨_, rfl⟩
  refine ⟨ts ++ us, h.quiet.splice_eq, ?_⟩
  rw [hfront, run_append, hrun, Option.bind_some, hlast]
  rfl

end BuildPlan.CSource
