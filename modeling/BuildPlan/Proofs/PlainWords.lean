import BuildPlan.Proofs.ShellWords

/-!
# Words that are taken as they are written

A character stands for itself where it has no meaning and starts no expansion. Words of such
characters are read as they are written (`words?_line`), and so is a text between double quotes
(`words?_quoted`), where fewer characters have a meaning.
-/

namespace BuildPlan.Shell

/-- Whether a character starts an expansion behind a dollar sign. -/
def opensExpansion (c : Char) : Bool :=
  c = '(' || c = '\x7b' || isNameStart c || isSpecial c

/-- Whether a character stands for itself in front of a text; `quoted` says that both are between
double quotes. -/
def isInertAt (quoted : Bool) (c : Char) (cs : List Char) : Bool :=
  if c = '$' then !cs.head?.any opensExpansion
  else if quoted then
    c != '"' && c != '\x60' && (c != '\\' || cs.head?.any fun d => !isEscapable d && d != '\n')
  else isBare c

/-- Whether every character of a text stands for itself. -/
def isInert (quoted : Bool) : List Char → Bool
  | [] => true
  | c :: cs => isInertAt quoted c cs && isInert quoted cs

theorem isInertAt_append {quoted : Bool} {c : Char} {cs rest : List Char}
    (h : isInertAt quoted c cs = true) (hrest : rest.head?.any opensExpansion = false) :
    isInertAt quoted c (cs ++ rest) = true := by
  cases cs with
  | nil =>
    unfold isInertAt at h ⊢
    simp only [List.nil_append, hrest]
    split_ifs at h ⊢ <;> simp_all
  | cons d cs => exact h

theorem all_isText_prepend (c : Char) (quoted : Bool) (w : Word) :
    (prepend c quoted w).all Piece.isText = w.all Piece.isText := by
  unfold prepend
  split
  · split_ifs <;> rfl
  · rfl

theorem dollar?_of_inert {quoted : Bool} {cs : List Char}
    (h : cs.head?.any opensExpansion = false) :
    dollar? quoted cs = some (.text ['$'] quoted, cs) := by
  cases cs with
  | nil => rfl
  | cons c cs =>
    simp only [List.head?_cons, Option.any_some, opensExpansion, Bool.or_eq_false_iff,
      decide_eq_false_iff_not] at h
    obtain ⟨⟨⟨hparen, hbrace⟩, hname⟩, hspecial⟩ := h
    unfold dollar?
    split
    · simp_all
    · simp_all
    · simp_all
    · simp_all

theorem pieces_inert_cons {fuel : Nat} {ctx : Context} {c : Char} {cs after : List Char} {v : Word}
    (hctx : ctx = .word ∨ ctx = .double) (hc : isInertAt (!ctx.isBare) c cs = true)
    (h : pieces fuel ctx cs = some (v, after)) (htext : v.all Piece.isText = true) :
    ∃ v', pieces (fuel + 1) ctx (c :: cs) = some (v', after) ∧ v'.all Piece.isText = true ∧
      plainText v' = c :: plainText v := by
  have hprepend : ∀ quoted, (prepend c quoted v).all Piece.isText = true ∧
      plainText (prepend c quoted v) = c :: plainText v := fun quoted =>
    ⟨(all_isText_prepend c quoted v).trans htext, plainText_prepend c quoted v⟩
  by_cases hdollar : c = '$'
  · subst hdollar
    rw [isInertAt, if_pos rfl, Bool.not_eq_true'] at hc
    refine ⟨[.text ['$'] (!ctx.isBare)] ++ v, ?_, by simp [Piece.isText, htext],
      by simp [plainText]⟩
    rcases hctx with rfl | rfl
    · simp [pieces, Context.isBare, isMeta, dollar?_of_inert hc, h]
    · simp [pieces, Context.isBare, dollar?_of_inert hc, h]
  rw [isInertAt, if_neg hdollar] at hc
  rcases hctx with rfl | rfl
  · simp only [Context.isBare, Bool.not_true, Bool.false_eq_true, if_false, isBare,
      Bool.and_eq_true, Bool.not_eq_true', List.contains_eq_mem, decide_eq_false_iff_not, List.mem_cons,
      List.not_mem_nil, or_false, not_or] at hc
    obtain ⟨hmeta, hslash, hquote, hdouble, hback⟩ := hc
    refine ⟨prepend c false v, ?_, hprepend false⟩
    simp [pieces, Context.isBare, hmeta, hslash, hquote, hdouble, hback, hdollar, h]
  · simp only [Context.isBare, Bool.not_false, if_true, Bool.and_eq_true, bne_iff_ne, ne_eq,
      Bool.or_eq_true] at hc
    obtain ⟨⟨hdouble, hback⟩, hslash⟩ := hc
    by_cases hc : c = '\\'
    · subst hc
      cases cs with
      | nil => simp at hslash
      | cons d ds =>
        simp only [not_true_eq_false, false_or, List.head?_cons, Option.any_some, Bool.and_eq_true,
          Bool.not_eq_true', bne_iff_ne, ne_eq] at hslash
        refine ⟨prepend '\\' true v, ?_, hprepend true⟩
        simp [pieces, Context.isBare, hslash.1, hslash.2, h]
    · refine ⟨prepend c true v, ?_, hprepend true⟩
      simp [pieces, Context.isBare, hc, hdouble, hback, hdollar, h]

theorem pieces_inert {ctx : Context} {w rest after : List Char} (hctx : ctx = .word ∨ ctx = .double)
    (hw : isInert (!ctx.isBare) w = true) (hrest : rest.head?.any opensExpansion = false)
    (hend : ∀ fuel, pieces (fuel + 1) ctx rest = some ([], after)) {fuel : Nat}
    (hfuel : w.length < fuel) :
    ∃ v, pieces fuel ctx (w ++ rest) = some (v, after) ∧ v.all Piece.isText = true ∧
      plainText v = w := by
  induction w generalizing fuel with
  | nil =>
    obtain ⟨fuel, rfl⟩ := Nat.exists_eq_add_one_of_ne_zero (Nat.ne_of_gt hfuel)
    exact ⟨[], hend fuel, rfl, rfl⟩
  | cons c w ih =>
    obtain ⟨fuel, rfl⟩ := Nat.exists_eq_add_one_of_ne_zero (Nat.ne_of_gt (Nat.zero_lt_of_lt hfuel))
    rw [isInert, Bool.and_eq_true] at hw
    obtain ⟨v, hpieces, htext, hplain⟩ := ih hw.2 (Nat.lt_of_succ_lt_succ hfuel)
    obtain ⟨v', hpieces', htext', hplain'⟩ :=
      pieces_inert_cons hctx (isInertAt_append hw.1 hrest) hpieces htext
    exact ⟨v', hpieces', htext', hplain ▸ hplain'⟩

def EndsWord (rest : List Char) : Prop :=
  rest = [] ∨ rest.head? = some ' '

theorem EndsWord.pieces {rest : List Char} (h : EndsWord rest) (fuel : Nat) :
    pieces (fuel + 1) .word rest = some ([], rest) := by
  rcases h with rfl | h
  · rfl
  · obtain ⟨_, rfl⟩ := List.head?_eq_some_iff.mp h
    rfl

theorem EndsWord.inert {rest : List Char} (h : EndsWord rest) :
    rest.head?.any opensExpansion = false := by
  rcases h with rfl | h
  · rfl
  · rw [h]
    rfl

theorem words?_of_pieces {c : Char} {cs after : List Char} {v : Word} (hmeta : isMeta c = false)
    (hcomment : c ≠ '#') (hslash : c ≠ '\\')
    (hnumber : ∀ d ∈ ((c :: cs).dropWhile Char.isDigit).head?, d ≠ '<' ∧ d ≠ '>')
    (hpieces : pieces ((c :: cs).length + 1) .word (c :: cs) = some (v, after))
    (htext : v.all Piece.isText = true) (fuel : Nat) :
    words? (tokensFrom (fuel + 1) (c :: cs)) =
      (words? (tokensFrom fuel after)).map (plainText v :: ·) := by
  have htoken : token? (c :: cs) = some (.word v, after) := by
    have hnumbered : numberedRedirect? (c :: cs) = none := by
      unfold numberedRedirect?
      dsimp only
      split
      · rename_i d ds hdrop
        rw [if_neg]
        rw [Bool.or_eq_true, decide_eq_true_eq, decide_eq_true_eq, not_or]
        exact hnumber d (by rw [hdrop]; rfl)
      · rfl
    have hoperator : operator? (c :: cs) = none := by
      unfold operator?
      split
      all_goals simp_all [isMeta]
    rw [token?, hnumbered]
    simp only [hoperator, hpieces, Option.map_some]
  have hblank : ¬ (c = ' ' ∨ c = '\t') := by
    rintro (rfl | rfl) <;> cases hmeta
  simp [tokensFrom, not_or.mp hblank, hcomment, hslash, htoken, words?, htext]

theorem head?_dropWhile_digits {w rest : List Char} (hw : ∀ c ∈ w, c ≠ '<' ∧ c ≠ '>')
    (hrest : EndsWord rest) :
    ∀ d ∈ ((w ++ rest).dropWhile Char.isDigit).head?, d ≠ '<' ∧ d ≠ '>' := by
  induction w with
  | nil =>
    rcases hrest with rfl | hrest
    · simp
    · obtain ⟨rest, rfl⟩ := List.head?_eq_some_iff.mp hrest
      intro d hd
      obtain rfl := Option.some.inj hd
      decide
  | cons c w ih =>
    obtain ⟨hc, hw⟩ := List.forall_mem_cons.mp hw
    rw [List.cons_append, List.dropWhile_cons]
    split_ifs
    · exact ih hw
    · intro d hd
      obtain rfl := Option.some.inj hd
      exact hc

theorem isInertAt_false {c : Char} {cs : List Char} (h : isInertAt false c cs = true) :
    isMeta c = false ∧ c ≠ '\\' := by
  by_cases hdollar : c = '$'
  · subst hdollar
    exact ⟨rfl, by decide⟩
  · rw [isInertAt, if_neg hdollar, if_neg Bool.false_ne_true, isBare, Bool.and_eq_true,
      Bool.not_eq_true', Bool.not_eq_true'] at h
    refine ⟨h.1, ?_⟩
    rintro rfl
    cases h.2

theorem ne_of_isInert {w : List Char} (h : isInert false w = true) :
    ∀ c ∈ w, c ≠ '<' ∧ c ≠ '>' := by
  induction w with
  | nil => simp
  | cons c w ih =>
    rw [isInert, Bool.and_eq_true] at h
    have hmeta := (isInertAt_false h.1).1
    refine List.forall_mem_cons.mpr ⟨⟨?_, ?_⟩, ih h.2⟩
    · rintro rfl
      cases hmeta
    · rintro rfl
      cases hmeta

theorem words?_inert {w rest : List Char} (hne : w ≠ []) (hcomment : w.head? ≠ some '#')
    (hw : isInert false w = true) (hrest : EndsWord rest) (fuel : Nat) :
    words? (tokensFrom (fuel + 1) (w ++ rest)) = (words? (tokensFrom fuel rest)).map (w :: ·) := by
  have hnumber := head?_dropWhile_digits (ne_of_isInert hw) hrest
  have hfuel : w.length < (w ++ rest).length + 1 := by
    rw [List.length_append]
    omega
  obtain ⟨v, hpieces, htext, hplain⟩ :=
    pieces_inert (.inl rfl) hw hrest.inert hrest.pieces hfuel
  obtain ⟨c, w, rfl⟩ := List.exists_cons_of_ne_nil hne
  rw [isInert, Bool.and_eq_true] at hw
  obtain ⟨hmeta, hslash⟩ := isInertAt_false hw.1
  have hread :=
    words?_of_pieces hmeta (fun hc => hcomment (hc ▸ rfl)) hslash hnumber hpieces htext fuel
  rwa [hplain] at hread

theorem IsBareWord.isInert {w : List Char} (h : IsBareWord w) : isInert false w = true := by
  obtain ⟨-, -, hall⟩ := h
  induction w with
  | nil => rfl
  | cons c w ih =>
    obtain ⟨⟨hbare, hdollar⟩, hrest⟩ := List.forall_mem_cons.mp hall
    rw [Shell.isInert, isInertAt, if_neg hdollar, if_neg Bool.false_ne_true, hbare, ih hrest]
    rfl

theorem pieces_quoted {fuel : Nat} {cs rest : List Char} {v : Word}
    (h : pieces fuel .double cs = some (v, rest))
    (hrest : pieces fuel .word rest = some ([], rest)) :
    ∃ front, pieces (fuel + 1) .word ('"' :: cs) = some (front, rest) ∧
      front.all Piece.isText = v.all Piece.isText ∧ plainText front = plainText v := by
  cases v with
  | nil => exact ⟨[.text [] true], by simp [pieces, Context.isBare, isMeta, h, hrest], rfl, rfl⟩
  | cons p v => exact ⟨p :: v, by simp [pieces, Context.isBare, isMeta, h, hrest], rfl, rfl⟩

theorem words?_quoted {w rest : List Char} (hw : isInert true w = true) (hrest : EndsWord rest)
    (fuel : Nat) :
    words? (tokensFrom (fuel + 1) ('"' :: w ++ '"' :: rest)) =
      (words? (tokensFrom fuel rest)).map (w :: ·) := by
  have hfuel : w.length < ('"' :: w ++ '"' :: rest).length := by
    rw [List.length_append, List.length_cons]
    omega
  have hend : ∀ fuel, pieces (fuel + 1) .double ('"' :: rest) = some ([], rest) := fun _ => rfl
  obtain ⟨v, hpieces, htext, hplain⟩ := pieces_inert (.inr rfl) hw rfl hend hfuel
  obtain ⟨v', hpieces', htext', hplain'⟩ := pieces_quoted hpieces (hrest.pieces _)
  have hread := words?_of_pieces (c := '"') rfl (by decide) (by decide) (by simp) hpieces'
    (htext' ▸ htext) fuel
  rwa [hplain', hplain] at hread

theorem words?_line {words : List (List Char)} (h : ∀ w ∈ words, IsBareWord w) {fuel : Nat}
    (hfuel : 2 * words.length < fuel) :
    words? (tokensFrom fuel (words.flatMap (' ' :: ·))) = some words := by
  induction words generalizing fuel with
  | nil =>
    obtain ⟨fuel, rfl⟩ := Nat.exists_eq_add_one_of_ne_zero (Nat.ne_of_gt hfuel)
    rfl
  | cons w words ih =>
    obtain ⟨hw, hwords⟩ := List.forall_mem_cons.mp h
    obtain ⟨fuel, rfl⟩ : ∃ n, fuel = n + 2 := ⟨fuel - 2, by rw [List.length_cons] at hfuel; omega⟩
    have hend : EndsWord (words.flatMap (' ' :: ·)) := by
      cases words with
      | nil => exact .inl rfl
      | cons v words => exact .inr rfl
    have hskip : words? (tokensFrom (fuel + 2) ((w :: words).flatMap (' ' :: ·))) =
        words? (tokensFrom (fuel + 1) (w ++ words.flatMap (' ' :: ·))) := rfl
    rw [hskip, words?_inert hw.1 hw.2.1 hw.isInert hend, ih hwords, Option.map_some]
    rw [List.length_cons] at hfuel
    omega

end BuildPlan.Shell
