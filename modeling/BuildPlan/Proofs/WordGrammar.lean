import BuildPlan.Proofs.Words
import Mathlib.Data.List.TakeWhile

/-!
# The grammar of a line of words

What a line may look like is said by a grammar: words with blanks between them, each bare or between
quotes. The words of a line are the values that the grammar gives it, and a line outside of it has a
quoted word that is not closed, has an unknown escape, or goes on behind its closing quote
(`words_exact`).

Both halves come from one fact: word by word, every line either follows the grammar or leaves it in
one of these ways (`lineText_or_badLine`).
-/

namespace BuildPlan.Scenario

open Text (isBlank)

/-! ## The grammar -/

/-- The letter of an escape, and the character it stands for. -/
inductive WordEscape : Char → Char → Prop
  | quote : WordEscape '"' '"'
  | backslash : WordEscape '\\' '\\'
  | newline : WordEscape 'n' '\n'
  | tab : WordEscape 't' '\t'

/-- What stands between two quotes, and its value. -/
inductive QuotedText : List Char → List Char → Prop
  | empty : QuotedText [] []
  | plain {c : Char} {cs value : List Char} (hquote : c ≠ '"') (hslash : c ≠ '\\')
      (h : QuotedText cs value) : QuotedText (c :: cs) (c :: value)
  | escape {c d : Char} {cs value : List Char} (hc : WordEscape c d) (h : QuotedText cs value) :
      QuotedText ('\\' :: c :: cs) (d :: value)

/-- A word as it is written, and its value. -/
inductive WordText : List Char → List Char → Prop
  | bare {cs : List Char} (hne : cs ≠ []) (hquote : cs.head? ≠ some '"')
      (hsolid : ∀ c ∈ cs, isBlank c = false) : WordText cs cs
  | quoted {cs value : List Char} (h : QuotedText cs value) : WordText ('"' :: (cs ++ ['"'])) value

def AllBlank (cs : List Char) : Prop :=
  ∀ c ∈ cs, isBlank c = true

/-- Words can end in front of this: it is nothing, or it starts with a blank. -/
def AtWordEnd (rest : List Char) : Prop :=
  ∀ c ∈ rest.head?, isBlank c = true

/-- A line of words, and their values. Blanks may stand around the words, and stand between them. -/
inductive LineText : List Char → List (List Char) → Prop
  | blank {cs : List Char} (h : AllBlank cs) : LineText cs []
  | word {before text rest value : List Char} {values : List (List Char)}
      (hbefore : AllBlank before) (htext : WordText text value) (hend : AtWordEnd rest)
      (hrest : LineText rest values) : LineText (before ++ (text ++ rest)) (value :: values)

/-- The start of a quoted word that is none, up to the end of the line, and what is wrong there. -/
inductive BadWord : List Char → WordError → Prop
  | unclosed {cs value : List Char} (h : QuotedText cs value) : BadWord ('"' :: cs) .unterminated
  | unfinished {cs value : List Char} (h : QuotedText cs value) :
      BadWord ('"' :: (cs ++ ['\\'])) .unterminated
  | escape {cs value rest : List Char} {c : Char} (h : QuotedText cs value)
      (hc : ∀ d, ¬ WordEscape c d) : BadWord ('"' :: (cs ++ '\\' :: c :: rest)) (.unknownEscape c)
  | glued {cs value rest : List Char} {c : Char} (h : QuotedText cs value)
      (hc : isBlank c = false) : BadWord ('"' :: (cs ++ '"' :: c :: rest)) .glued

/-- A line of which a word is bad, where those before it are not. -/
inductive BadLine : List Char → WordError → Prop
  | here {before text : List Char} {e : WordError} (hbefore : AllBlank before)
      (h : BadWord text e) : BadLine (before ++ text) e
  | later {before text rest value : List Char} {e : WordError} (hbefore : AllBlank before)
      (htext : WordText text value) (hend : AtWordEnd rest) (hrest : BadLine rest e) :
      BadLine (before ++ (text ++ rest)) e

theorem escape?_eq_some_iff {c d : Char} : escape? c = some d ↔ WordEscape c d := by
  constructor
  · intro h
    unfold escape? at h
    split at h
    · exact Option.some.inj h ▸ .quote
    · exact Option.some.inj h ▸ .backslash
    · exact Option.some.inj h ▸ .newline
    · exact Option.some.inj h ▸ .tab
    · cases h
  · rintro (_ | _ | _ | _) <;> rfl

theorem escape?_eq_none_iff {c : Char} : escape? c = none ↔ ∀ d, ¬ WordEscape c d := by
  simp only [Option.eq_none_iff_forall_ne_some, ne_eq, escape?_eq_some_iff]

/-! ## Reading by the grammar -/

theorem wordsFrom_blanks {before : List Char} (h : AllBlank before) (rest : List Char) :
    wordsFrom .between (before ++ rest) = wordsFrom .between rest := by
  induction before with
  | nil => rfl
  | cons c before ih =>
    obtain ⟨hc, hbefore⟩ := List.forall_mem_cons.mp h
    rw [List.cons_append, wordsFrom, if_pos hc, ih hbefore]

theorem wordsFrom_quotedText {cs value : List Char} (h : QuotedText cs value)
    (acc rest : List Char) :
    wordsFrom (.quoted acc) (cs ++ rest) = wordsFrom (.quoted (value.reverse ++ acc)) rest := by
  induction h generalizing acc with
  | empty => rfl
  | plain hquote hslash _ ih =>
    rw [List.cons_append, wordsFrom, if_neg hquote, if_neg hslash, ih, List.reverse_cons,
      List.append_assoc, List.singleton_append]
  | escape hc _ ih =>
    rw [List.cons_append, List.cons_append, wordsFrom, if_neg (by decide), if_pos rfl, wordsFrom,
      escape?_eq_some_iff.mpr hc]
    simp only
    rw [ih, List.reverse_cons, List.append_assoc, List.singleton_append]

theorem wordsFrom_openQuote {cs value : List Char} (h : QuotedText cs value) (rest : List Char) :
    wordsFrom .between ('"' :: (cs ++ rest)) = wordsFrom (.quoted value.reverse) rest := by
  rw [wordsFrom, if_neg (by decide), if_pos rfl, wordsFrom_quotedText h, List.append_nil]

theorem wordsFrom_atWordEnd {rest : List Char} (h : AtWordEnd rest) (acc : List Char) :
    wordsFrom (.bare acc) rest = consWord acc (wordsFrom .between rest) ∧
      wordsFrom (.closed acc) rest = consWord acc (wordsFrom .between rest) := by
  cases rest with
  | nil => exact ⟨rfl, rfl⟩
  | cons c rest =>
    have hc : isBlank c = true := h c rfl
    simp only [wordsFrom, hc, if_true, and_self]

theorem wordsFrom_wordText {text value rest : List Char} (h : WordText text value)
    (hend : AtWordEnd rest) :
    wordsFrom .between (text ++ rest) = consWord value.reverse (wordsFrom .between rest) := by
  cases h with
  | bare hne hquote hsolid =>
    obtain ⟨c, cs, rfl⟩ := List.exists_cons_of_ne_nil hne
    obtain ⟨hc, hcs⟩ := List.forall_mem_cons.mp hsolid
    have hfirst : c ≠ '"' := fun h => hquote (congrArg some h)
    rw [List.cons_append, wordsFrom, hc, if_neg Bool.false_ne_true, if_neg hfirst,
      wordsFrom_bare hcs, (wordsFrom_atWordEnd hend _).1, List.reverse_cons]
  | quoted h =>
    rw [List.cons_append, List.append_assoc, wordsFrom_openQuote h, List.singleton_append,
      wordsFrom, if_pos rfl, (wordsFrom_atWordEnd hend _).2]

theorem wordsFrom_badWord {text : List Char} {e : WordError} (h : BadWord text e) :
    wordsFrom .between text = .error e := by
  cases h with
  | unclosed h =>
    have hend := wordsFrom_openQuote h []
    rwa [List.append_nil] at hend
  | unfinished h => exact wordsFrom_openQuote h ['\\']
  | escape h hc =>
    rw [wordsFrom_openQuote h, wordsFrom, if_neg (by decide), if_pos rfl, wordsFrom,
      escape?_eq_none_iff.mpr hc]
  | glued h hc =>
    rw [wordsFrom_openQuote h, wordsFrom, if_pos rfl, wordsFrom, hc, if_neg Bool.false_ne_true]

theorem wordsFrom_of_lineText {line : List Char} {values : List (List Char)}
    (h : LineText line values) : wordsFrom .between line = .ok values := by
  induction h with
  | blank h =>
    have hall := wordsFrom_blanks h []
    rwa [List.append_nil] at hall
  | word hbefore htext hend _ ih =>
    rw [wordsFrom_blanks hbefore, wordsFrom_wordText htext hend, ih, consWord, List.reverse_reverse]

theorem wordsFrom_of_badLine {line : List Char} {e : WordError} (h : BadLine line e) :
    wordsFrom .between line = .error e := by
  induction h with
  | here hbefore h => rw [wordsFrom_blanks hbefore, wordsFrom_badWord h]
  | later hbefore htext hend _ ih =>
    rw [wordsFrom_blanks hbefore, wordsFrom_wordText htext hend, ih, consWord]

/-! ## Reading word by word -/

/-- Takes a quoted word from behind its opening quote: its value, and what follows it. -/
def takeQuoted : List Char → Except WordError (List Char × List Char)
  | [] => .error .unterminated
  | ['\\'] => .error .unterminated
  | '\\' :: c :: cs =>
    match escape? c with
    | none => .error (.unknownEscape c)
    | some d => (takeQuoted cs).map fun r => (d :: r.1, r.2)
  | c :: cs => if c = '"' then .ok ([], cs) else (takeQuoted cs).map fun r => (c :: r.1, r.2)

/-- Takes a word, if there is one, from behind the blanks in front of it. -/
def takeWord (cs : List Char) : Except WordError (Option (List Char × List Char)) :=
  match cs.dropWhile isBlank with
  | [] => .ok none
  | c :: cs =>
    if c = '"' then
      match takeQuoted cs with
      | .error e => .error e
      | .ok (value, rest) =>
        if rest.head?.all isBlank then .ok (some (value, rest)) else .error .glued
    else .ok (some ((c :: cs).takeWhile (!isBlank ·), (c :: cs).dropWhile (!isBlank ·)))

/-- Takes words round by round until none is left; none where the rounds do not suffice. -/
def takeWords : (rounds : Nat) → List Char → Option (Except WordError (List (List Char)))
  | 0, _ => none
  | rounds + 1, cs =>
    match takeWord cs with
    | .error e => some (.error e)
    | .ok none => some (.ok [])
    | .ok (some (value, rest)) => (takeWords rounds rest).map (·.map (value :: ·))

theorem BadWord.cons (more : List Char) {cs : List Char} {e : WordError} {d : Char}
    (h : BadWord ('"' :: cs) e)
    (hmore : ∀ {cs value}, QuotedText cs value → QuotedText (more ++ cs) (d :: value)) :
    BadWord ('"' :: (more ++ cs)) e := by
  cases h with
  | unclosed h => exact .unclosed (hmore h)
  | unfinished h =>
    rw [← List.append_assoc]
    exact .unfinished (hmore h)
  | escape h hc =>
    rw [← List.append_assoc]
    exact .escape (hmore h) hc
  | glued h hc =>
    rw [← List.append_assoc]
    exact .glued (hmore h) hc

theorem takeQuoted_spec (cs : List Char) :
    (∃ text value rest, takeQuoted cs = .ok (value, rest) ∧ cs = text ++ '"' :: rest ∧
      QuotedText text value) ∨
    ∃ e, takeQuoted cs = .error e ∧ BadWord ('"' :: cs) e := by
  fun_induction takeQuoted cs with
  | case1 => exact .inr ⟨_, rfl, .unclosed .empty⟩
  | case2 => exact .inr ⟨_, rfl, .unfinished .empty⟩
  | case3 c cs hc => exact .inr ⟨_, rfl, .escape .empty (escape?_eq_none_iff.mp hc)⟩
  | case4 c cs d hd ih =>
    have hescape := escape?_eq_some_iff.mp hd
    rcases ih with ⟨text, value, rest, htake, rfl, htext⟩ | ⟨e, htake, hbad⟩
    · exact .inl ⟨'\\' :: c :: text, d :: value, rest, by rw [htake]; rfl, rfl,
        .escape hescape htext⟩
    · exact .inr ⟨e, by rw [htake]; rfl, hbad.cons ['\\', c] (.escape hescape)⟩
  | case5 cs _ _ => exact .inl ⟨[], [], cs, rfl, rfl, .empty⟩
  | case6 c cs hend hmore hquote ih =>
    have hslash : c ≠ '\\' := by
      rintro rfl
      cases cs with
      | nil => exact hend rfl rfl
      | cons d cs => exact hmore d cs rfl rfl
    rcases ih with ⟨text, value, rest, htake, rfl, htext⟩ | ⟨e, htake, hbad⟩
    · exact .inl ⟨c :: text, c :: value, rest, by rw [htake]; rfl, rfl, .plain hquote hslash htext⟩
    · exact .inr ⟨e, by rw [htake]; rfl, hbad.cons [c] (.plain hquote hslash)⟩

theorem atWordEnd_iff {rest : List Char} : rest.head?.all isBlank = true ↔ AtWordEnd rest := by
  cases rest <;> simp [AtWordEnd]

/-- **What a round does.** It finds only blanks, takes a word, or comes to a bad one. -/
theorem takeWord_spec (cs : List Char) :
    (takeWord cs = .ok none ∧ AllBlank cs) ∨
    (∃ before text value rest, takeWord cs = .ok (some (value, rest)) ∧
      cs = before ++ (text ++ rest) ∧ AllBlank before ∧ WordText text value ∧ AtWordEnd rest) ∨
    ∃ before text e, takeWord cs = .error e ∧ cs = before ++ text ∧ AllBlank before ∧
      BadWord text e := by
  have hcs : cs = cs.takeWhile isBlank ++ cs.dropWhile isBlank :=
    List.takeWhile_append_dropWhile.symm
  have hbefore : AllBlank (cs.takeWhile isBlank) := fun c hc => List.mem_takeWhile_imp hc
  have hfirst := List.head?_dropWhile_not isBlank cs
  rw [takeWord]
  cases hrest : cs.dropWhile isBlank with
  | nil =>
    rw [hrest, List.append_nil] at hcs
    exact .inl ⟨rfl, hcs ▸ hbefore⟩
  | cons c rest =>
    rw [hrest] at hcs hfirst
    simp only
    split_ifs with hquote
    · subst hquote
      rcases takeQuoted_spec rest with ⟨text, value, after, htake, rfl, htext⟩ | ⟨e, htake, hbad⟩
      · rw [htake]
        simp only
        split_ifs with hend
        · refine .inr (.inl ⟨_, '"' :: (text ++ ['"']), value, after, rfl, ?_, hbefore,
            .quoted htext, atWordEnd_iff.mp hend⟩)
          rw [List.cons_append, List.append_assoc]
          exact hcs
        · refine .inr (.inr ⟨_, _, .glued, rfl, hcs, hbefore, ?_⟩)
          cases after with
          | nil => exact absurd rfl hend
          | cons d after => exact .glued htext (by simpa using hend)
      · rw [htake]
        exact .inr (.inr ⟨_, _, e, rfl, hcs, hbefore, hbad⟩)
    · have hc : isBlank c = false := hfirst
      have hword : WordText ((c :: rest).takeWhile (!isBlank ·))
          ((c :: rest).takeWhile (!isBlank ·)) := by
        rw [List.takeWhile_cons_of_pos (by simpa using hc)]
        refine .bare (List.cons_ne_nil _ _) (by simpa using hquote) ?_
        refine List.forall_mem_cons.mpr ⟨hc, fun d hd => ?_⟩
        simpa using List.mem_takeWhile_imp hd
      refine .inr (.inl ⟨_, _, _, _, rfl, ?_, hbefore, hword, fun d hd => ?_⟩)
      · rw [List.takeWhile_append_dropWhile]
        exact hcs
      · have hstop := List.head?_dropWhile_not (!isBlank ·) (c :: rest)
        rw [Option.mem_def.mp hd] at hstop
        simpa using hstop

theorem WordText.ne_nil {text value : List Char} (h : WordText text value) : text ≠ [] := by
  cases h with
  | bare hne => exact hne
  | quoted h => exact List.cons_ne_nil _ _

/-- **The rounds come to an end**: each but the last takes characters from the line. -/
theorem takeWords_spec {rounds : Nat} {line : List Char} (h : line.length < rounds) :
    (∃ values, takeWords rounds line = some (.ok values) ∧ LineText line values) ∨
    ∃ e, takeWords rounds line = some (.error e) ∧ BadLine line e := by
  induction rounds generalizing line with
  | zero => exact absurd h (Nat.not_lt_zero _)
  | succ rounds ih =>
    rw [takeWords]
    rcases takeWord_spec line with ⟨htake, hblank⟩ |
      ⟨before, text, value, rest, htake, rfl, hbefore, htext, hend⟩ |
      ⟨before, text, e, htake, rfl, hbefore, hbad⟩
    · rw [htake]
      exact .inl ⟨[], rfl, .blank hblank⟩
    · have hshort : rest.length < rounds := by
        have hpos := List.length_pos_iff.mpr htext.ne_nil
        simp only [List.length_append] at h
        omega
      rw [htake]
      rcases ih hshort with ⟨values, hvalues, hrest⟩ | ⟨e, herror, hrest⟩
      · refine .inl ⟨value :: values, ?_, .word hbefore htext hend hrest⟩
        simp only
        rw [hvalues]
        rfl
      · refine .inr ⟨e, ?_, .later hbefore htext hend hrest⟩
        simp only
        rw [herror]
        rfl
    · rw [htake]
      exact .inr ⟨e, rfl, .here hbefore hbad⟩

/-- **Every line follows the grammar or leaves it.** -/
theorem lineText_or_badLine (line : List Char) :
    (∃ values, LineText line values) ∨ ∃ e, BadLine line e := by
  rcases takeWords_spec (Nat.lt_succ_self line.length) with ⟨values, -, h⟩ | ⟨e, -, h⟩
  · exact .inl ⟨values, h⟩
  · exact .inr ⟨e, h⟩

/-! ## The words of a line -/

theorem wordsFrom_eq_ok_iff {line : List Char} {values : List (List Char)} :
    wordsFrom .between line = .ok values ↔ LineText line values := by
  refine ⟨fun h => ?_, wordsFrom_of_lineText⟩
  rcases lineText_or_badLine line with ⟨values', hline⟩ | ⟨e, hline⟩
  · rw [wordsFrom_of_lineText hline] at h
    exact Except.ok.inj h ▸ hline
  · rw [wordsFrom_of_badLine hline] at h
    cases h

theorem wordsFrom_eq_error_iff {line : List Char} {e : WordError} :
    wordsFrom .between line = .error e ↔ BadLine line e := by
  refine ⟨fun h => ?_, wordsFrom_of_badLine⟩
  rcases lineText_or_badLine line with ⟨values, hline⟩ | ⟨e', hline⟩
  · rw [wordsFrom_of_lineText hline] at h
    cases h
  · rw [wordsFrom_of_badLine hline] at h
    exact Except.error.inj h ▸ hline

theorem takeWords_eq {rounds : Nat} {line : List Char} (h : line.length < rounds) :
    takeWords rounds line = some (wordsFrom .between line) := by
  rcases takeWords_spec h with ⟨values, htake, hline⟩ | ⟨e, htake, hline⟩
  · rw [htake, wordsFrom_of_lineText hline]
  · rw [htake, wordsFrom_of_badLine hline]

theorem wordsOf_eq_map (line : List Char) :
    wordsOf line = (wordsFrom .between line).map (List.map String.ofList) := by
  rw [wordsOf]
  cases wordsFrom .between line <;> rfl

/-- **The words of a line are those of the grammar.** A line has words exactly if it is made of
blanks and of words, each bare or between quotes, with blanks between two. Its words are then their
values, and it has no others. It has none exactly if one of its quoted words is not closed, has an
escape that is no escape, or goes on behind its closing quote. Reading word by word comes to the
same, and to its end in no more rounds than the line has characters, and one. -/
theorem words_exact (line : List Char) :
    (∀ words, wordsOf line = .ok words ↔ LineText line (words.map String.toList)) ∧
    (∀ words others, LineText line words → LineText line others → words = others) ∧
    (∀ e, wordsOf line = .error e ↔ BadLine line e) ∧
    (takeWords (line.length + 1) line).map (·.map (List.map String.ofList)) =
      some (wordsOf line) := by
  refine ⟨fun words => ?_, fun words others h hothers => ?_, fun e => ?_, ?_⟩
  · rw [← wordsFrom_eq_ok_iff, wordsOf_eq_map]
    cases wordsFrom .between line with
    | error e => exact ⟨fun h => (by cases h), fun h => (by cases h)⟩
    | ok values =>
      constructor
      · intro h
        rw [← Except.ok.inj h]
        simp [Function.comp_def]
      · intro h
        rw [Except.ok.inj h]
        simp [Except.map, Function.comp_def]
  · have hwords := wordsFrom_of_lineText h
    rw [wordsFrom_of_lineText hothers] at hwords
    exact (Except.ok.inj hwords).symm
  · rw [← wordsFrom_eq_error_iff, wordsOf_eq_map]
    cases wordsFrom .between line with
    | error e' =>
      exact ⟨fun h => congrArg _ (Except.error.inj h), fun h => congrArg _ (Except.error.inj h)⟩
    | ok values => exact ⟨fun h => (by cases h), fun h => (by cases h)⟩
  · rw [takeWords_eq (Nat.lt_succ_self _), wordsOf_eq_map]
    rfl

/-- A quote inside a bare word, an escaped one, and an empty word. -/
theorem words_exact_quotes :
    let line := " edit\t\"a \\\" b\" x\"y \"\" ".toList
    LineText line ["edit".toList, "a \" b".toList, "x\"y".toList, []] ∧
      (∀ words, LineText line words →
        words = ["edit".toList, "a \" b".toList, "x\"y".toList, []]) ∧
      BadLine "edit \"a\"b".toList .glued := by
  intro line
  have hline := ((words_exact line).1 ["edit", "a \" b", "x\"y", ""]).mp (by decide)
  refine ⟨hline, fun words h => (words_exact line).2.1 _ _ h hline, ?_⟩
  exact ((words_exact "edit \"a\"b".toList).2.2.1 .glued).mp (by decide)

end BuildPlan.Scenario
