import BuildPlan.Shell.Token
import Mathlib.Tactic.Common

/-!
# Words on a command line

Cutting a text into words never adds a character (`sublist_of_pieces`), and it loses none only where
no character of the words has a meaning (`isBareWord_of_room`). So it can be seen from the words alone
that nothing in the text was quoted, expanded or left out.
-/

namespace BuildPlan.Shell

/-! ## Words of text -/

/-- Whether a piece stands for its characters. -/
def Piece.isText : Piece → Bool
  | .text _ _ => true
  | _ => false

/-- The words of tokens that are nothing but text. -/
def words? : List Token → Option (List (List Char))
  | [] => some []
  | .word w :: ts => if w.all Piece.isText then (words? ts).map (plainText w :: ·) else none
  | _ => none

/-- Whether a character stands for itself outside of quotes, a dollar sign aside. -/
def isBare (c : Char) : Bool :=
  !isMeta c && !(['\\', '\x27', '"', '\x60'].contains c)

/-- A word that the shell takes as it is written. -/
def IsBareWord (w : List Char) : Prop :=
  w ≠ [] ∧ w.head? ≠ some '#' ∧ ∀ c ∈ w, isBare c = true ∧ c ≠ '$'

instance (w : List Char) : Decidable (IsBareWord w) :=
  decidable_of_iff
    (w ≠ [] ∧ w.head? ≠ some '#' ∧ (w.all fun c => isBare c && c != '$') = true)
    (by simp [IsBareWord])

theorem plainText_append (w v : Word) : plainText (w ++ v) = plainText w ++ plainText v :=
  List.flatMap_append

theorem plainText_prepend (c : Char) (quoted : Bool) (w : Word) :
    plainText (prepend c quoted w) = c :: plainText w := by
  unfold prepend
  split
  · split_ifs <;> rfl
  · rfl

/-! ## What is read from a text -/

theorem eq_of_cutAt {stop : Char} {cs before after : List Char}
    (h : cutAt stop cs = some (before, after)) : cs = before ++ stop :: after := by
  induction cs generalizing before with
  | nil => cases h
  | cons c cs ih =>
    rw [cutAt] at h
    split_ifs at h with hc
    · obtain ⟨rfl, rfl⟩ := Prod.mk.inj (Option.some.inj h)
      rw [hc]
      rfl
    · obtain ⟨⟨a, b⟩, hcut, heq⟩ := Option.map_eq_some_iff.mp h
      obtain ⟨rfl, rfl⟩ := Prod.mk.inj heq
      rw [ih hcut]
      rfl

theorem sublist_of_enclosed {opener closer : Char} {depth : Nat} {quote : Option Char}
    {cs body after : List Char} (h : enclosed opener closer depth quote cs = some (body, after)) :
    after.Sublist cs := by
  induction cs generalizing depth quote body with
  | nil => rw [enclosed] at h; cases h
  | cons c cs ih =>
    have hmore : ∀ {depth quote},
        (enclosed opener closer depth quote cs).map (fun p => (c :: p.1, p.2)) =
          some (body, after) → after.Sublist (c :: cs) := by
      intro depth quote h
      obtain ⟨⟨_, _⟩, hrest, heq⟩ := Option.map_eq_some_iff.mp h
      obtain ⟨-, rfl⟩ := Prod.mk.inj heq
      exact (ih hrest).cons c
    rw [enclosed] at h
    dsimp only at h
    split_ifs at h
    · exact hmore h
    · exact hmore h
    · exact hmore h
    · exact hmore h
    · exact hmore h
    · obtain ⟨-, rfl⟩ := Prod.mk.inj (Option.some.inj h)
      exact List.sublist_cons_self c cs
    · exact hmore h
    · exact hmore h
    · exact hmore h

theorem plainText_substitution (quoted : Bool) (body : List Char) :
    plainText [substitution quoted body] = [] := by
  unfold substitution
  split
  · split_ifs <;> rfl
  · rfl

theorem plainText_braced? {quoted : Bool} {body : List Char} {p : Piece}
    (h : braced? quoted body = some p) : plainText [p] = [] := by
  unfold braced? at h
  split at h
  · cases h
  · split at h
    · exact Option.some.inj h ▸ rfl
    · dsimp only at h
      obtain ⟨-, h⟩ := Option.ite_none_left_eq_some.mp h
      obtain ⟨_, -, rfl⟩ := Option.map_eq_some_iff.mp h
      rfl

theorem dollar?_cases {quoted : Bool} {cs after : List Char} {p : Piece}
    (h : dollar? quoted cs = some (p, after)) :
    (p = .text ['$'] quoted ∧ after = cs) ∨ (plainText [p] = [] ∧ after.Sublist cs) := by
  unfold dollar? at h
  split at h
  · obtain ⟨⟨body, rest⟩, henclosed, heq⟩ := Option.map_eq_some_iff.mp h
    obtain ⟨rfl, rfl⟩ := Prod.mk.inj heq
    exact .inr ⟨plainText_substitution quoted body, (sublist_of_enclosed henclosed).cons _⟩
  · split at h
    · rename_i henclosed
      obtain ⟨piece, hpiece, heq⟩ := Option.map_eq_some_iff.mp h
      obtain ⟨rfl, rfl⟩ := Prod.mk.inj heq
      exact .inr ⟨plainText_braced? hpiece, (sublist_of_enclosed henclosed).cons _⟩
    · cases h
  · split_ifs at h
    · obtain ⟨rfl, rfl⟩ := Prod.mk.inj (Option.some.inj h)
      exact .inr ⟨rfl, List.dropWhile_sublist _⟩
    · obtain ⟨rfl, rfl⟩ := Prod.mk.inj (Option.some.inj h)
      exact .inr ⟨rfl, List.sublist_cons_self _ _⟩
    · obtain ⟨rfl, rfl⟩ := Prod.mk.inj (Option.some.inj h)
      exact .inl ⟨rfl, rfl⟩
  · obtain ⟨rfl, rfl⟩ := Prod.mk.inj (Option.some.inj h)
    exact .inl ⟨rfl, rfl⟩

theorem eq_nil_of_pieces_nil {fuel : Nat} {ctx : Context} {after : List Char} {w : Word}
    (h : pieces fuel ctx [] = some (w, after)) : w = [] ∧ after = [] := by
  cases fuel with
  | zero => rw [pieces] at h; cases h
  | succ fuel =>
    rw [pieces] at h
    split_ifs at h
    obtain ⟨rfl, rfl⟩ := Prod.mk.inj (Option.some.inj h)
    exact ⟨rfl, rfl⟩

/-- A word whose first character is read: something comes from a part of the text behind it, or the
character itself does, which has no meaning then unless it is a backslash at the very end. -/
def Reads (fuel : Nat) (ctx : Context) (c : Char) (cs after : List Char) (w : Word) : Prop :=
  ∃ front cs' w', pieces fuel ctx cs' = some (w', after) ∧ plainText w = front ++ plainText w' ∧
    ((front ++ cs').Sublist cs ∨
      front = [c] ∧ cs' = cs ∧ (ctx = .word → isBare c = true ∨ after = []))

section Reads

variable {fuel : Nat} {ctx : Context} {c : Char} {cs cs' after : List Char} {w front : Word}

theorem Reads.char {d : Char} {quoted : Bool}
    (h : (pieces fuel ctx cs').map (fun (w, rest) => (prepend d quoted w, rest)) = some (w, after))
    (hd : (d :: cs').Sublist cs ∨
      d = c ∧ cs' = cs ∧ (ctx = .word → isBare c = true ∨ after = [])) :
    Reads fuel ctx c cs after w := by
  obtain ⟨⟨w', rest⟩, hrest, heq⟩ := Option.map_eq_some_iff.mp h
  obtain ⟨rfl, rfl⟩ := Prod.mk.inj heq
  refine ⟨[d], cs', w', hrest, plainText_prepend d quoted w', ?_⟩
  rcases hd with hd | ⟨rfl, hd⟩
  · exact .inl hd
  · exact .inr ⟨rfl, hd⟩

theorem Reads.behind
    (h : (pieces fuel ctx cs').map (fun (w, rest) => (front ++ w, rest)) = some (w, after))
    (hfront : (plainText front ++ cs').Sublist cs ∨
      plainText front = [c] ∧ cs' = cs ∧ (ctx = .word → isBare c = true ∨ after = [])) :
    Reads fuel ctx c cs after w := by
  obtain ⟨⟨w', rest⟩, hrest, heq⟩ := Option.map_eq_some_iff.mp h
  obtain ⟨rfl, rfl⟩ := Prod.mk.inj heq
  exact ⟨plainText front, cs', w', hrest, plainText_append front w', hfront⟩

theorem pieces_cons
    (hinside : ∀ cs after w, pieces fuel .double cs = some (w, after) →
      (plainText w ++ after).Sublist cs)
    (h : pieces (fuel + 1) ctx (c :: cs) = some (w, after)) :
    (w = [] ∧ (ctx = .word ∧ isMeta c = true ∧ after = c :: cs ∨ ctx = .double ∧ after = cs)) ∨
      Reads fuel ctx c cs after w := by
  unfold pieces at h
  dsimp only at h
  split at h
  · rename_i hmeta
    rw [Bool.and_eq_true, decide_eq_true_eq] at hmeta
    obtain ⟨rfl, rfl⟩ := Prod.mk.inj (Option.some.inj h)
    exact .inl ⟨rfl, .inl ⟨hmeta.1, hmeta.2, rfl⟩⟩
  rename_i hmeta
  split at h
  · rename_i hclosed
    rw [Bool.and_eq_true, decide_eq_true_eq] at hclosed
    obtain ⟨rfl, rfl⟩ := Prod.mk.inj (Option.some.inj h)
    exact .inl ⟨rfl, .inr ⟨hclosed.1, rfl⟩⟩
  right
  -- Behind a backslash, then quotes, then what is expanded.
  split at h
  · rename_i hslash
    split at h
    · obtain ⟨⟨_, _⟩, hrest, heq⟩ := Option.map_eq_some_iff.mp h
      have hend := (eq_nil_of_pieces_nil hrest).2.symm.trans (Prod.mk.inj heq).2
      exact .char h (.inr ⟨hslash.symm, rfl, fun _ => .inr hend.symm⟩)
    · exact ⟨[], _, w, h, rfl, .inl (List.sublist_cons_self _ _)⟩
    · split at h
      · exact .char h (.inl (List.Sublist.refl _))
      · rename_i hbare
        refine .char h (.inr ⟨hslash.symm, rfl, fun hctx => ?_⟩)
        rw [hctx] at hbare
        exact absurd rfl hbare
  rename_i hslash
  split at h
  · split at h
    · rename_i hcut
      refine .behind h (.inl ?_)
      rw [eq_of_cutAt hcut]
      exact List.Sublist.append (by simp [plainText]) (List.sublist_cons_self _ _)
    · cases h
  rename_i hquote
  split at h
  · split at h
    · rename_i hpieces
      exact .behind h (.inl (hinside _ _ [] hpieces))
    · rename_i hpieces
      exact .behind h (.inl (hinside _ _ _ hpieces))
    · cases h
  rename_i hdouble
  split at h
  · split at h
    · rename_i hcut
      refine .behind h (.inl ?_)
      rw [eq_of_cutAt hcut]
      exact (List.sublist_cons_self _ _).trans (List.sublist_append_right _ _)
    · cases h
  rename_i hback
  split at h
  · rename_i hc
    split at h
    · rename_i hdollar
      obtain ⟨rfl, rfl⟩ | ⟨hnone, hsublist⟩ := dollar?_cases hdollar
      · exact .behind h (.inr ⟨by rw [hc]; rfl, rfl, fun _ => .inl (hc ▸ rfl)⟩)
      · exact .behind h (.inl (hnone ▸ hsublist))
    · cases h
  · refine .char h (.inr ⟨rfl, rfl, fun hctx => .inl ?_⟩)
    rw [hctx] at hmeta hquote hdouble
    simp [isBare, Context.isBare] at hmeta hquote hdouble ⊢
    exact ⟨hmeta, hslash, hquote, hdouble, hback⟩

end Reads

/-- Reading adds no character. -/
theorem sublist_of_pieces {fuel : Nat} {ctx : Context} {cs after : List Char} {w : Word}
    (h : pieces fuel ctx cs = some (w, after)) : (plainText w ++ after).Sublist cs := by
  induction fuel generalizing ctx cs after w with
  | zero => rw [pieces] at h; cases h
  | succ fuel ih =>
    cases cs with
    | nil =>
      obtain ⟨rfl, rfl⟩ := eq_nil_of_pieces_nil h
      exact List.Sublist.refl _
    | cons c cs =>
      obtain ⟨rfl, ⟨-, -, rfl⟩ | ⟨-, rfl⟩⟩ | ⟨front, cs', w', hrest, htext, hfront⟩ :=
        pieces_cons (fun _ _ _ hinside => ih hinside) h
      · exact List.Sublist.refl _
      · exact List.sublist_cons_self _ _
      · have hbehind : (front ++ (plainText w' ++ after)).Sublist (front ++ cs') :=
          (ih hrest).append_left front
        rw [htext, List.append_assoc]
        rcases hfront with hfront | ⟨rfl, rfl, -⟩
        · exact (hbehind.trans hfront).cons c
        · exact hbehind

theorem isBare_of_pieces {fuel : Nat} {cs after : List Char} {w : Word}
    (h : pieces fuel .word cs = some (w, after)) (hafter : after ≠ [])
    (hall : cs.length = (plainText w ++ after).length) : ∀ c ∈ plainText w, isBare c = true := by
  induction fuel generalizing cs w with
  | zero => rw [pieces] at h; cases h
  | succ fuel ih =>
    cases cs with
    | nil => exact absurd (eq_nil_of_pieces_nil h).2 hafter
    | cons c cs =>
      obtain ⟨rfl, -⟩ | ⟨front, cs', w', hrest, htext, hfront⟩ :=
        pieces_cons (fun _ _ _ => sublist_of_pieces) h
      · simp [plainText]
      · have hlength := (sublist_of_pieces hrest).length_le
        rw [htext] at hall ⊢
        rcases hfront with hfront | ⟨rfl, rfl, hbare⟩
        · have hless := hfront.length_le
          simp only [List.length_append, List.length_cons] at hall hless hlength
          omega
        · intro d hd
          rcases List.mem_append.mp hd with hd | hd
          · rw [List.mem_singleton.mp hd]
            exact (hbare rfl).resolve_right hafter
          · exact ih hrest (by simpa using hall) d hd

theorem after_of_pieces {fuel : Nat} {cs after : List Char} {w : Word}
    (h : pieces fuel .word cs = some (w, after)) :
    after = [] ∨ ∃ c ∈ after.head?, isMeta c = true := by
  induction fuel generalizing cs w with
  | zero => rw [pieces] at h; cases h
  | succ fuel ih =>
    cases cs with
    | nil => exact .inl (eq_nil_of_pieces_nil h).2
    | cons c cs =>
      obtain ⟨-, ⟨-, hmeta, rfl⟩ | ⟨hctx, -⟩⟩ | ⟨_, _, _, hrest, -, -⟩ :=
        pieces_cons (fun _ _ _ => sublist_of_pieces) h
      · exact .inr ⟨c, rfl, hmeta⟩
      · cases hctx
      · exact ih hrest

/-! ## Tokens -/

theorem hereDocument?_ne_word {descriptor : Nat} {strip : Bool} {cs after : List Char} {w : Word} :
    hereDocument? descriptor strip cs ≠ some (.word w, after) := by
  intro h
  unfold hereDocument? at h
  split at h
  · cases h
  · dsimp only at h
    split at h
    · cases h
    · obtain ⟨_, -, heq⟩ := Option.map_eq_some_iff.mp h
      cases heq

theorem redirect?_ne_word {descriptor : Option Nat} {cs after : List Char} {w : Word} :
    redirect? descriptor cs ≠ some (.word w, after) := by
  intro h
  unfold redirect? at h
  split at h
  · exact hereDocument?_ne_word h
  · exact hereDocument?_ne_word h
  all_goals cases h

theorem numberedRedirect?_ne_word {cs after : List Char} {w : Word} :
    numberedRedirect? cs ≠ some (some (.word w, after)) := by
  intro h
  unfold numberedRedirect? at h
  dsimp only at h
  split at h
  · split at h
    · exact redirect?_ne_word (Option.some.inj h)
    · cases h
  · cases h

theorem operator?_ne_word {cs after : List Char} {w : Word} :
    operator? cs ≠ some (.word w, after) := by
  intro h
  unfold operator? at h
  split at h
  all_goals cases h

theorem operator?_isSome {c : Char} (cs : List Char) (h : c ∈ ['\n', '|', '&', ';', '(', ')']) :
    (operator? (c :: cs)).isSome = true := by
  unfold operator?
  split
  all_goals simp_all

theorem token?_word {c : Char} {cs after : List Char} {w : Word}
    (h : token? (c :: cs) = some (.word w, after)) :
    pieces ((c :: cs).length + 1) .word (c :: cs) = some (w, after) ∧
      (isMeta c = true → c = ' ' ∨ c = '\t') := by
  unfold token? at h
  split at h
  · rename_i hnumbered
    exact absurd (h ▸ hnumbered) numberedRedirect?_ne_word
  · rename_i hnumbered
    split at h
    · rename_i hoperator
      exact absurd (h ▸ hoperator) operator?_ne_word
    · rename_i hoperator
      obtain ⟨⟨v, rest⟩, hpieces, heq⟩ := Option.map_eq_some_iff.mp h
      obtain ⟨hword, rfl⟩ := Prod.mk.inj heq
      obtain rfl := Token.word.inj hword
      refine ⟨hpieces, fun hmeta => ?_⟩
      by_contra hblank
      by_cases hredirect : c = '<' ∨ c = '>'
      · rcases hredirect with rfl | rfl
        · cases hnumbered
        · cases hnumbered
      · have hmark : c ∈ ['\n', '|', '&', ';', '(', ')'] := by
          simp only [isMeta, List.contains_eq_mem, decide_eq_true_eq] at hmeta
          simp_all
        have hsome := operator?_isSome cs hmark
        rw [hoperator] at hsome
        cases hsome

/-! ## Words of a text -/

/-- Whether a character only separates words. -/
def separates (c : Char) : Bool :=
  c = ' ' || c = '\t'

/-- Whether a text does not start inside of a word. -/
def startsApart : List Char → Bool
  | [] => true
  | c :: _ => separates c

/-- Where the words of a text come from: from what stands behind something that is skipped, or from
the first word and what stands behind it. -/
theorem words?_cons {fuel : Nat} {c : Char} {cs : List Char} {words : List (List Char)}
    (h : words? (tokensFrom (fuel + 1) (c :: cs)) = some words) :
    (∃ cs', words? (tokensFrom fuel cs') = some words ∧
      (separates c = true ∧ cs' = cs ∨ isMeta c = false ∧ cs'.Sublist cs)) ∨
    ∃ w after words', words = plainText w :: words' ∧ c ≠ '#' ∧ isMeta c = false ∧
      pieces ((c :: cs).length + 1) .word (c :: cs) = some (w, after) ∧
      words? (tokensFrom fuel after) = some words' := by
  rw [tokensFrom] at h
  split at h
  · rename_i hblank
    exact .inl ⟨cs, h, .inl ⟨hblank, rfl⟩⟩
  rename_i hblank
  rw [Bool.or_eq_true, decide_eq_true_eq, decide_eq_true_eq] at hblank
  split at h
  · rename_i hcomment
    exact .inl ⟨_, h, .inr ⟨hcomment ▸ rfl, List.dropWhile_sublist _⟩⟩
  rename_i hcomment
  split at h
  · rename_i hslash
    rw [Bool.and_eq_true, decide_eq_true_eq] at hslash
    exact .inl ⟨_, h, .inr ⟨hslash.1 ▸ rfl, List.tail_sublist _⟩⟩
  split at h
  · rename_i t after htoken
    cases t with
    | word w =>
      obtain ⟨hpieces, hmeta⟩ := token?_word htoken
      rw [words?] at h
      split_ifs at h
      obtain ⟨words', hwords, rfl⟩ := Option.map_eq_some_iff.mp h
      exact .inr ⟨w, after, words', rfl, hcomment,
        Bool.eq_false_iff.mpr fun hc => hblank (hmeta hc), hpieces, hwords⟩
    | _ => cases h
  · cases h

theorem flatten_sublist {fuel : Nat} {cs : List Char} {words : List (List Char)}
    (h : words? (tokensFrom fuel cs) = some words) : words.flatten.Sublist cs := by
  induction fuel generalizing cs words with
  | zero => rw [tokensFrom] at h; cases h
  | succ fuel ih =>
    cases cs with
    | nil =>
      obtain rfl := Option.some.inj h
      exact List.Sublist.refl _
    | cons c cs =>
      rcases words?_cons h with
        ⟨cs', hwords, hcs⟩ | ⟨w, after, words', rfl, -, -, hpieces, hwords⟩
      · have hrest : cs'.Sublist cs := by
          rcases hcs with ⟨-, rfl⟩ | ⟨-, hcs⟩
          · exact List.Sublist.refl _
          · exact hcs
        exact ((ih hwords).trans hrest).cons c
      · exact ((ih hwords).append_left _).trans (sublist_of_pieces hpieces)

theorem startsApart_of_words? {fuel : Nat} {cs after : List Char} {w : Word}
    {words : List (List Char)} (hpieces : pieces fuel .word cs = some (w, after)) {fuel' : Nat}
    (h : words? (tokensFrom fuel' after) = some words) : startsApart after = true := by
  rcases after_of_pieces hpieces with rfl | ⟨c, hc, hmeta⟩
  · rfl
  obtain ⟨rest, rfl⟩ := List.head?_eq_some_iff.mp hc
  cases fuel' with
  | zero => rw [tokensFrom] at h; cases h
  | succ fuel' =>
    rcases words?_cons h with ⟨_, -, ⟨hblank, -⟩ | ⟨hmeta', -⟩⟩ | ⟨_, _, _, -, -, hmeta', -, -⟩
    · exact hblank
    · rw [hmeta'] at hmeta; cases hmeta
    · rw [hmeta'] at hmeta; cases hmeta

/-- The room that words take with one character in front of each. -/
def room : List (List Char) → Nat
  | [] => 0
  | w :: words => w.length + 1 + room words

/-- The room that a text has for words. -/
def roomIn (cs : List Char) : Nat :=
  if startsApart cs then cs.length else cs.length + 1

theorem length_flatMap_blank (words : List (List Char)) :
    (words.flatMap (' ' :: ·)).length = room words := by
  induction words with
  | nil => rfl
  | cons w words ih => rw [List.flatMap_cons, List.length_append, ih, List.length_cons, room]

theorem room_eq_roomIn (words : List (List Char)) :
    room words = roomIn (words.flatMap (' ' :: ·)) := by
  have hapart : startsApart (words.flatMap (' ' :: ·)) = true := by
    cases words <;> rfl
  rw [roomIn, hapart, if_pos rfl, length_flatMap_blank]

theorem length_le_room (words : List (List Char)) : words.length ≤ room words := by
  induction words with
  | nil => exact Nat.le_refl 0
  | cons w words ih =>
    rw [room, List.length_cons]
    omega

theorem startsApart_cons_of_isMeta_false {c : Char} (cs : List Char) (h : isMeta c = false) :
    startsApart (c :: cs) = false := by
  rw [startsApart, separates, Bool.or_eq_false_iff]
  constructor
  · rw [decide_eq_false_iff_not]
    rintro rfl
    cases h
  · rw [decide_eq_false_iff_not]
    rintro rfl
    cases h

theorem room_le {fuel : Nat} {cs : List Char} {words : List (List Char)}
    (h : words? (tokensFrom fuel cs) = some words) : room words ≤ roomIn cs := by
  induction fuel generalizing cs words with
  | zero => rw [tokensFrom] at h; cases h
  | succ fuel ih =>
    cases cs with
    | nil =>
      obtain rfl := Option.some.inj h
      exact Nat.le_refl 0
    | cons c cs =>
      rcases words?_cons h with
        ⟨cs', hwords, hcs⟩ | ⟨w, after, words', rfl, -, hmeta, hpieces, hwords⟩
      · have hle := ih hwords
        have hlength : cs'.length ≤ cs.length := by
          rcases hcs with ⟨-, rfl⟩ | ⟨-, hcs⟩
          · exact Nat.le_refl _
          · exact hcs.length_le
        unfold roomIn at hle ⊢
        rw [List.length_cons]
        split_ifs at hle ⊢ <;> omega
      · have hle := ih hwords
        have hlength := (sublist_of_pieces hpieces).length_le
        rw [roomIn, startsApart_of_words? hpieces hwords, if_pos rfl] at hle
        rw [roomIn, startsApart_cons_of_isMeta_false cs hmeta, if_neg Bool.false_ne_true, room]
        rw [List.length_append] at hlength
        omega

/-- A word that is all that was read is one that the shell takes as it is written. -/
theorem isBareWord_of_pieces {fuel : Nat} {c : Char} {cs after : List Char} {w : Word}
    (h : pieces fuel .word (c :: cs) = some (w, after)) (hcomment : c ≠ '#')
    (hmeta : isMeta c = false) (hapart : startsApart after = true) (hafter : after ≠ [])
    (hall : plainText w ++ after = c :: cs) (hdollar : '$' ∉ plainText w) :
    IsBareWord (plainText w) := by
  have hbare := isBare_of_pieces h hafter (congrArg List.length hall.symm)
  cases htext : plainText w with
  | nil =>
    rw [htext, List.nil_append] at hall
    rw [hall, startsApart_cons_of_isMeta_false cs hmeta] at hapart
    cases hapart
  | cons d ds =>
    rw [htext] at hall hbare hdollar
    obtain ⟨rfl, -⟩ := List.cons.inj hall
    refine ⟨List.cons_ne_nil _ _, fun hhead => hcomment (Option.some.inj hhead), ?_⟩
    exact fun e he => ⟨hbare e he, fun heq => hdollar (heq ▸ he)⟩

/-- **Where words fill their text**, the shell took every character for itself. At the very end a
backslash is left as it is, so nothing is said about the last word. -/
theorem isBareWord_of_room {fuel : Nat} {cs : List Char} {words : List (List Char)}
    (h : words? (tokensFrom fuel cs) = some words) (hroom : room words = roomIn cs)
    (hdollar : '$' ∉ words.flatten) : ∀ w ∈ words.dropLast, IsBareWord w := by
  induction fuel generalizing cs words with
  | zero => rw [tokensFrom] at h; cases h
  | succ fuel ih =>
    cases cs with
    | nil =>
      obtain rfl := Option.some.inj h
      simp
    | cons c cs =>
      rcases words?_cons h with
        ⟨cs', hwords, ⟨hblank, rfl⟩ | ⟨hmeta, hcs⟩⟩ |
          ⟨w, after, words', rfl, hcomment, hmeta, hpieces, hwords⟩
      · have hle := room_le hwords
        refine ih hwords (Nat.le_antisymm hle ?_) hdollar
        rw [hroom, roomIn, roomIn, startsApart, hblank, if_pos rfl, List.length_cons]
        split_ifs <;> omega
      · have hle := room_le hwords
        have hlength := hcs.length_le
        rw [hroom, roomIn, startsApart_cons_of_isMeta_false cs hmeta, if_neg Bool.false_ne_true,
          List.length_cons, roomIn] at hle
        split_ifs at hle <;> omega
      · have hle := room_le hwords
        have hsublist := sublist_of_pieces hpieces
        have hlength := hsublist.length_le
        rw [roomIn, startsApart_of_words? hpieces hwords, if_pos rfl] at hle
        rw [roomIn, startsApart_cons_of_isMeta_false cs hmeta, if_neg Bool.false_ne_true,
          room] at hroom
        rw [List.length_append] at hlength
        have hall : plainText w ++ after = c :: cs :=
          hsublist.eq_of_length (by rw [List.length_append]; omega)
        have hrest : ∀ v ∈ words'.dropLast, IsBareWord v := by
          refine ih hwords ?_ fun hd => hdollar (List.mem_append_right _ hd)
          rw [roomIn, startsApart_of_words? hpieces hwords, if_pos rfl]
          omega
        cases words' with
        | nil => simp
        | cons v words' =>
          have hafter : after ≠ [] := by
            rintro rfl
            rw [room, List.length_nil] at hle
            omega
          intro u hu
          rw [List.dropLast_cons_cons] at hu
          rcases List.mem_cons.mp hu with rfl | hu
          · exact isBareWord_of_pieces hpieces hcomment hmeta (startsApart_of_words? hpieces hwords)
              hafter hall fun hd => hdollar (List.mem_append_left _ hd)
          · exact hrest u hu

end BuildPlan.Shell
