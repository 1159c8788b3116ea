import BuildPlan.Text.Search
import Mathlib.Data.List.Infix

/-!
# Replacing in texts

An occurrence of a pattern lies within the text that it is found in, so replacing goes on behind a
character that the pattern does not have as if the text began there (`replaceFrom_append_sep`), and
brings in no characters but those of the text and of what is put in.

Several patterns are replaced one after the other, each in what the one before has left. Where no
pattern can start within the text that is put in, nor that text within a pattern, the passes do not
get into each other's way: what they leave is the text with each of its marks replaced
(`replaced_foldl`), and has no mark any more (`Replaced.unmarked`).
-/

namespace BuildPlan.Text

variable {sep : Char} {pat : List Char}

theorem isPrefixOf_append_sep (hsep : sep ∉ pat) (w rest : List Char) :
    pat.isPrefixOf (w ++ sep :: rest) = pat.isPrefixOf w := by
  induction pat generalizing w with
  | nil => simp
  | cons p pat ih =>
    obtain ⟨hp, hpat⟩ := not_or.mp fun h => hsep (List.mem_cons.mpr h)
    cases w with
    | nil =>
      rw [List.nil_append, List.isPrefixOf_cons_cons, beq_eq_false_iff_ne.mpr (Ne.symm hp)]
      rfl
    | cons c w =>
      rw [List.cons_append, List.isPrefixOf_cons_cons, List.isPrefixOf_cons_cons, ih hpat]

/-- No occurrence reaches over a character that the pattern does not have. -/
theorem replaceFrom_append_sep (hsep : sep ∉ pat) (hpat : pat ≠ []) (sub rest : List Char)
    {skip : Nat} {w : List Char} (hskip : skip ≤ w.length) :
    replaceFrom pat sub skip (w ++ sep :: rest) =
      replaceFrom pat sub skip w ++ sep :: replaceFrom pat sub 0 rest := by
  induction w generalizing skip with
  | nil =>
    obtain rfl : skip = 0 := Nat.le_zero.mp hskip
    have hno : pat.isPrefixOf (sep :: rest) = false := by
      cases pat with
      | nil => exact absurd rfl hpat
      | cons p pat => exact isPrefixOf_append_sep hsep [] rest
    show replaceFrom pat sub 0 (sep :: rest) = sep :: replaceFrom pat sub 0 rest
    rw [replaceFrom, hno]
    rfl
  | cons c w ih =>
    cases skip with
    | succ skip => exact ih (Nat.le_of_succ_le_succ hskip)
    | zero =>
      have hsame := isPrefixOf_append_sep hsep (c :: w) rest
      rw [List.cons_append] at hsame
      rw [List.cons_append, replaceFrom, replaceFrom, hsame]
      split
      · -- the occurrence ends within the word, so what is skipped does too
        rename_i hprefix
        have hlength : pat.length ≤ w.length + 1 :=
          (List.isPrefixOf_iff_prefix.mp hprefix).length_le
        rw [ih (Nat.sub_le_of_le_add hlength), List.append_assoc]
      · rw [ih (Nat.zero_le _), List.cons_append]

theorem replaceFrom_of_not_occursIn (sub : List Char) {s : List Char} (h : occursIn pat s = false) :
    replaceFrom pat sub 0 s = s := by
  induction s with
  | nil => rfl
  | cons c s ih =>
    rw [occursIn, Bool.or_eq_false_iff] at h
    rw [replaceFrom, h.1, ih h.2]
    rfl

theorem mem_replaceFrom_of_occursIn {sub s : List Char} (hpat : pat ≠ [])
    (h : occursIn pat s = true) {c : Char} (hc : c ∈ sub) : c ∈ replaceFrom pat sub 0 s := by
  induction s with
  | nil => exact absurd (List.isEmpty_iff.mp h) hpat
  | cons d s ih =>
    rw [replaceFrom]
    split
    · exact List.mem_append_left _ hc
    · rename_i hno
      rw [occursIn, Bool.or_eq_true] at h
      exact List.mem_cons_of_mem _ (ih (h.resolve_left hno))

theorem mem_or_mem_of_mem_replaceFrom {sub s : List Char} {skip : Nat} {c : Char}
    (h : c ∈ replaceFrom pat sub skip s) : c ∈ s ∨ c ∈ sub := by
  fun_induction replaceFrom pat sub skip s with
  | case1 => exact .inl h
  | case2 skip d s ih => exact (ih h).imp_left (List.mem_cons_of_mem d)
  | case3 d s _ ih =>
    rcases List.mem_append.mp h with h | h
    · exact .inr h
    · exact (ih h).imp_left (List.mem_cons_of_mem d)
  | case4 d s _ ih =>
    rcases List.mem_cons.mp h with rfl | h
    · exact .inl List.mem_cons_self
    · exact (ih h).imp_left (List.mem_cons_of_mem d)

theorem occursIn_iff_infix {s : List Char} : occursIn pat s = true ↔ pat <:+: s := by
  induction s with
  | nil => simp [occursIn]
  | cons c s ih =>
    rw [occursIn, Bool.or_eq_true, List.isPrefixOf_iff_prefix, ih, List.infix_cons_iff]

theorem prefix_of_prefix_append_sep {w rest : List Char} (hsep : sep ∉ pat)
    (h : pat <+: w ++ sep :: rest) : pat <+: w := by
  rwa [← List.isPrefixOf_iff_prefix, isPrefixOf_append_sep hsep, List.isPrefixOf_iff_prefix] at h

theorem infix_append_sep {w rest : List Char} (hsep : sep ∉ pat) (h : pat <:+: w ++ sep :: rest) :
    pat <:+: w ∨ pat <:+: rest := by
  induction w with
  | nil =>
    refine (List.infix_cons_iff.mp h).imp_left fun h => ?_
    exact (prefix_of_prefix_append_sep (w := []) hsep h).isInfix
  | cons c w ih =>
    rcases List.infix_cons_iff.mp h with h | h
    · exact .inl (prefix_of_prefix_append_sep (w := c :: w) hsep h).isInfix
    · exact (ih h).imp_left (List.infix_cons_iff.mpr ∘ .inr)

theorem mem_or_mem_of_mem_interleave {sub s : List Char} {c : Char} (h : c ∈ interleave sub s) :
    c ∈ s ∨ c ∈ sub := by
  induction s with
  | nil => exact .inr h
  | cons d s ih =>
    rw [interleave, List.mem_append, List.mem_cons] at h
    rcases h with h | rfl | h
    · exact .inr h
    · exact .inl List.mem_cons_self
    · exact (ih h).imp_left (List.mem_cons_of_mem d)

theorem mem_or_mem_of_mem_replace {sub s : List Char} {c : Char} (h : c ∈ replace pat sub s) :
    c ∈ s ∨ c ∈ sub := by
  unfold replace at h
  split at h
  · exact mem_or_mem_of_mem_interleave h
  · exact mem_or_mem_of_mem_replaceFrom h

/-! ## Patterns that do not overlap themselves -/

theorem replaceFrom_skip (pat sub skipped rest : List Char) :
    replaceFrom pat sub skipped.length (skipped ++ rest) = replaceFrom pat sub 0 rest := by
  induction skipped with
  | nil => rfl
  | cons c skipped ih => exact ih

theorem replaceFrom_pat_append (hpat : pat ≠ []) (sub rest : List Char) :
    replaceFrom pat sub 0 (pat ++ rest) = sub ++ replaceFrom pat sub 0 rest := by
  obtain ⟨p, ps, rfl⟩ := List.exists_cons_of_ne_nil hpat
  have hstart : (p :: ps).isPrefixOf (p :: (ps ++ rest)) = true := by simp
  rw [List.cons_append, replaceFrom, if_pos hstart, List.length_cons, Nat.add_sub_cancel,
    replaceFrom_skip]

theorem replaceFrom_append_pat {p : Char} {ps sub w : List Char} (hp : p ∉ ps)
    (hw : occursIn (p :: ps) w = false) (rest : List Char) :
    replaceFrom (p :: ps) sub 0 (w ++ (p :: ps) ++ rest) =
      w ++ sub ++ replaceFrom (p :: ps) sub 0 rest := by
  induction w with
  | nil => exact replaceFrom_pat_append (List.cons_ne_nil p ps) sub rest
  | cons c w ih =>
    rw [occursIn, Bool.or_eq_false_iff] at hw
    have hno : (p :: ps).isPrefixOf (c :: (w ++ (p :: ps) ++ rest)) = false := by
      rw [Bool.eq_false_iff]
      intro hprefix
      have hno : ¬ p :: ps <+: c :: w := fun h =>
        Bool.eq_false_iff.mp hw.1 (List.isPrefixOf_iff_prefix.mpr h)
      rw [List.isPrefixOf_iff_prefix, ← List.cons_append, ← List.cons_append,
        List.append_assoc] at hprefix
      obtain ⟨t, ht⟩ := (List.prefix_or_prefix_of_prefix hprefix
        (List.prefix_append (c :: w) _)).resolve_left hno
      have htail : t <+: p :: ps ++ rest :=
        (List.prefix_append_right_inj (c :: w)).mp (by rwa [ht])
      cases t with
      | nil => exact hno (by rw [← ht, List.append_nil])
      | cons x t =>
        -- what is left of the occurrence would start with its first character again
        obtain ⟨rfl, -⟩ := List.cons_prefix_cons.mp htail
        obtain ⟨-, rfl⟩ := List.cons_eq_cons.mp ht
        exact hp (List.mem_append_right w List.mem_cons_self)
    rw [List.cons_append, List.cons_append, replaceFrom, hno, ih hw.2]
    rfl

/-! ## Several patterns, one after the other -/

/-- The pattern has a first character, and the text does not have it. -/
def StartsOutside (pat w : List Char) : Prop :=
  ∃ p ps, pat = p :: ps ∧ p ∉ w

theorem StartsOutside.ne_nil {w : List Char} (h : StartsOutside pat w) : pat ≠ [] := by
  obtain ⟨p, ps, rfl, -⟩ := h
  exact List.cons_ne_nil p ps

theorem StartsOutside.not_starts {c : Char} {w s : List Char} (h : StartsOutside pat (c :: w)) :
    ¬ pat <+: c :: s := by
  obtain ⟨p, ps, rfl, hp⟩ := h
  exact fun hstarts => hp ((List.cons_prefix_cons.mp hstarts).1 ▸ List.mem_cons_self)

theorem StartsOutside.tail {c : Char} {w : List Char} (h : StartsOutside pat (c :: w)) :
    StartsOutside pat w := by
  obtain ⟨p, ps, rfl, hp⟩ := h
  exact ⟨p, ps, rfl, fun hmem => hp (List.mem_cons_of_mem c hmem)⟩

theorem StartsOutside.replaceFrom_append {w : List Char} (h : StartsOutside pat w)
    (sub s : List Char) : replaceFrom pat sub 0 (w ++ s) = w ++ replaceFrom pat sub 0 s := by
  induction w with
  | nil => rfl
  | cons c w ih =>
    rw [List.cons_append, replaceFrom, if_neg, ih h.tail, List.cons_append]
    exact fun hstarts => h.not_starts (List.isPrefixOf_iff_prefix.mp hstarts)

theorem StartsOutside.infix_append {w s : List Char} (h : StartsOutside pat w)
    (hoccurs : pat <:+: w ++ s) : pat <:+: s := by
  induction w with
  | nil => exact hoccurs
  | cons c w ih =>
    exact ih h.tail ((List.infix_cons_iff.mp hoccurs).resolve_left h.not_starts)

/-- The second text is the first with each of its marks replaced, from left to right. -/
inductive Replaced (marks : List (List Char)) (sub : List Char) : List Char → List Char → Prop
  | nil : Replaced marks sub [] []
  | keep {c : Char} {s t : List Char} (hno : ∀ m ∈ marks, ¬ m <+: c :: s)
      (h : Replaced marks sub s t) : Replaced marks sub (c :: s) (c :: t)
  | swap {m s t : List Char} (hm : m ∈ marks) (h : Replaced marks sub s t) :
      Replaced marks sub (m ++ s) (sub ++ t)

variable {marks : List (List Char)} {sub s t w : List Char}

theorem replaced_nil_marks (sub s : List Char) : Replaced [] sub s s := by
  induction s with
  | nil => exact .nil
  | cons c s ih => exact .keep (fun m hm => absurd hm List.not_mem_nil) ih

/-- What the replaced text starts with, and the replacement cannot start within, the text started
with. -/
theorem Replaced.exists_of_starts (h : Replaced marks sub s t) (hsub : StartsOutside sub w)
    (hstarts : w <+: t) : ∃ s' t', s = w ++ s' ∧ t = w ++ t' ∧ Replaced marks sub s' t' := by
  induction w generalizing s t with
  | nil => exact ⟨s, t, rfl, rfl, h⟩
  | cons c w ih =>
    cases h with
    | nil => exact absurd (List.prefix_nil.mp hstarts) (List.cons_ne_nil c w)
    | keep hno h =>
      obtain ⟨rfl, htail⟩ := List.cons_prefix_cons.mp hstarts
      obtain ⟨s', t', rfl, rfl, h'⟩ := ih h hsub.tail htail
      exact ⟨s', t', rfl, rfl, h'⟩
    | swap hm h =>
      obtain ⟨p, ps, rfl, hp⟩ := hsub
      obtain ⟨rfl, -⟩ := List.cons_prefix_cons.mp hstarts
      exact absurd List.mem_cons_self hp

/-- What the text started with, and no mark can start within, the replaced text starts with. -/
theorem Replaced.prefix_of_starts (h : Replaced marks sub s t)
    (hmarks : ∀ m ∈ marks, StartsOutside m w) (hstarts : w <+: s) : w <+: t := by
  induction w generalizing s t with
  | nil => exact List.nil_prefix
  | cons c w ih =>
    cases h with
    | nil => exact hstarts
    | keep hno h =>
      obtain ⟨rfl, htail⟩ := List.cons_prefix_cons.mp hstarts
      exact List.cons_prefix_cons.mpr ⟨rfl, ih h (fun m hm => (hmarks m hm).tail) htail⟩
    | swap hm h =>
      obtain ⟨p, ps, rfl, hp⟩ := hmarks _ hm
      obtain ⟨rfl, -⟩ := List.cons_prefix_cons.mp hstarts
      exact absurd List.mem_cons_self hp

/-- Marks that can be replaced one after the other: neither does a mark start within the
replacement or within a later mark, nor the replacement within a mark. -/
structure PassesApart (marks : List (List Char)) (sub : List Char) : Prop where
  mark_sub : ∀ m ∈ marks, StartsOutside m sub
  sub_mark : ∀ m ∈ marks, StartsOutside sub m
  later : marks.Pairwise StartsOutside

theorem Replaced.pass {m : List Char} (hmsub : StartsOutside m sub) (hsubm : StartsOutside sub m)
    (hmarks : ∀ m' ∈ marks, StartsOutside m' m) (h : Replaced marks sub s t) :
    Replaced (marks ++ [m]) sub s (replaceFrom m sub 0 t) := by
  have hmem : m ∈ marks ++ [m] := List.mem_append_right _ List.mem_cons_self
  -- an occurrence that is replaced is skipped in one step, so the induction is on the length
  induction hlength : s.length using Nat.strong_induction_on generalizing s t with
  | _ n ih =>
    subst hlength
    have ih : ∀ {s' t' : List Char}, s'.length < s.length → Replaced marks sub s' t' →
        Replaced (marks ++ [m]) sub s' (replaceFrom m sub 0 t') := fun hlt h' => ih _ hlt h' rfl
    cases h with
    | nil => exact .nil
    | @keep c s t hno h =>
      by_cases hstarts : m <+: c :: t
      · obtain ⟨s', t', hs, ht, h'⟩ := (Replaced.keep hno h).exists_of_starts hsubm hstarts
        rw [hs, ht, replaceFrom_pat_append hmsub.ne_nil]
        refine .swap hmem (ih ?_ h')
        rw [hs, List.length_append]
        exact Nat.lt_add_of_pos_left (List.length_pos_iff.mpr hmsub.ne_nil)
      · rw [replaceFrom, if_neg (mt List.isPrefixOf_iff_prefix.mp hstarts)]
        refine .keep (fun m' hm' => ?_) (ih (Nat.lt_succ_self s.length) h)
        rcases List.mem_append.mp hm' with hm' | hm'
        · exact hno m' hm'
        · rw [List.mem_singleton.mp hm']
          exact fun hs => hstarts ((Replaced.keep hno h).prefix_of_starts hmarks hs)
    | @swap m' s t hm' h =>
      rw [hmsub.replaceFrom_append]
      refine .swap (List.mem_append_left _ hm') (ih ?_ h)
      rw [List.length_append]
      exact Nat.lt_add_of_pos_left (List.length_pos_iff.mpr (hmarks m' hm').ne_nil)

/-- **The passes one after the other** replace each mark of the text. -/
theorem replaced_foldl (hapart : PassesApart marks sub) (s : List Char) :
    Replaced marks sub s (marks.foldl (fun s m => replace m sub s) s) := by
  induction marks using List.reverseRecOn with
  | nil => exact replaced_nil_marks sub s
  | append_singleton marks m ih =>
    obtain ⟨hlater, -, hm⟩ := List.pairwise_append.mp hapart.later
    have hmem : m ∈ marks ++ [m] := List.mem_append_right _ List.mem_cons_self
    have hbefore : ∀ m' ∈ marks, m' ∈ marks ++ [m] := fun _ h => List.mem_append_left _ h
    have hmsub := hapart.mark_sub m hmem
    rw [List.foldl_append, List.foldl_cons, List.foldl_nil, replace,
      if_neg (by simp [hmsub.ne_nil])]
    refine Replaced.pass hmsub (hapart.sub_mark m hmem)
      (fun m' hm' => hm m' hm' m List.mem_cons_self) (ih ⟨?_, ?_, hlater⟩)
    · exact fun m' hm' => hapart.mark_sub m' (hbefore m' hm')
    · exact fun m' hm' => hapart.sub_mark m' (hbefore m' hm')

theorem Replaced.unmarked (h : Replaced marks sub s t) (hapart : PassesApart marks sub)
    {m : List Char} (hm : m ∈ marks) : ¬ m <:+: t := by
  induction h with
  | nil => exact fun hoccurs => (hapart.mark_sub m hm).ne_nil (List.infix_nil.mp hoccurs)
  | keep hno h ih =>
    intro hoccurs
    obtain ⟨s', -, hs, -⟩ := (Replaced.keep hno h).exists_of_starts (hapart.sub_mark m hm)
      ((List.infix_cons_iff.mp hoccurs).resolve_right ih)
    exact hno m hm ⟨s', hs.symm⟩
  | swap _ _ ih => exact fun hoccurs => ih ((hapart.mark_sub m hm).infix_append hoccurs)

theorem Replaced.eq_of_unmarked (h : Replaced marks sub s t) (hs : ∀ m ∈ marks, ¬ m <:+: s) :
    t = s := by
  induction h with
  | nil => rfl
  | keep _ _ ih => rw [ih fun m hm hoccurs => hs m hm (List.infix_cons_iff.mpr (.inr hoccurs))]
  | swap hm _ _ => exact absurd (List.prefix_append _ _).isInfix (hs _ hm)

theorem Replaced.mem_or_mem (h : Replaced marks sub s t) {c : Char} (hc : c ∈ t) :
    c ∈ s ∨ c ∈ sub := by
  induction h with
  | nil => exact .inl hc
  | keep _ _ ih =>
    rcases List.mem_cons.mp hc with rfl | hc
    · exact .inl List.mem_cons_self
    · exact (ih hc).imp_left (List.mem_cons_of_mem _)
  | swap _ _ ih =>
    rcases List.mem_append.mp hc with hc | hc
    · exact .inr hc
    · exact (ih hc).imp_left (List.mem_append_right _)

end BuildPlan.Text
