import BuildPlan.Proofs.ManifestReader
import BuildPlan.Proofs.PlainWords

/-!
# Variables in values

How the value of a manifest is read: a dollar sign takes the meaning away from the special character
behind it, or refers to a variable. A value reads up to a blank on its own, and unless it has no
dollar sign it has fewer of them when it is read (`expand?_cut`).
-/

namespace BuildPlan

namespace Ninja

open Shell (EndsWord)

/-- A character of a name behind a dollar sign without braces. -/
def isVariableChar (c : Char) : Bool :=
  isNameChar c && c != '.'

/-- How a text is read on. -/
inductive Mode where
  | plain
  /-- Behind a dollar sign. -/
  | dollar
  /-- In a name, of which the beginning is read. -/
  | name (front : List Char)
  /-- In a name between braces. -/
  | braced (front : List Char)

/-- The text of a value with its variables replaced; none where the value ends before the text or a
dollar sign has no meaning. -/
def expandFrom (env : String → List Char) : Mode → List Char → Option (List Char)
  | .plain, [] => some []
  | .name front, [] => some (env (String.ofList front))
  | _, [] => none
  | mode, c :: cs =>
    let plain : Option (List Char) :=
      if c = '$' then expandFrom env .dollar cs
      else if c = '\n' then none
      else (expandFrom env .plain cs).map (c :: ·)
    match mode with
    | .plain => plain
    | .dollar =>
      if c = '$' || c = ' ' || c = ':' then (expandFrom env .plain cs).map (c :: ·)
      else if c = '\x7b' then expandFrom env (.braced []) cs
      else if isVariableChar c then expandFrom env (.name [c]) cs
      else none
    | .name front =>
      if isVariableChar c then expandFrom env (.name (front ++ [c])) cs
      else plain.map (env (String.ofList front) ++ ·)
    | .braced front =>
      if c = '\x7d' then
        if front = [] then none
        else (expandFrom env .plain cs).map (env (String.ofList front) ++ ·)
      else if isNameChar c then expandFrom env (.braced (front ++ [c])) cs
      else none

/-- The text of a value with its variables replaced. -/
def expand? (env : String → List Char) (cs : List Char) : Option (List Char) :=
  expandFrom env .plain cs

variable {env : String → List Char}

theorem expand?_cons {c : Char} (cs : List Char) (hdollar : c ≠ '$') (hline : c ≠ '\n') :
    expand? env (c :: cs) = (expand? env cs).map (c :: ·) := by
  rw [expand?, expandFrom]
  simp only [hdollar, hline, if_false, expand?]

theorem expand?_append {cs : List Char} (h : ∀ c ∈ cs, c ≠ '$' ∧ c ≠ '\n') (rest : List Char) :
    expand? env (cs ++ rest) = (expand? env rest).map (cs ++ ·) := by
  induction cs with
  | nil => simp
  | cons c cs ih =>
    obtain ⟨hc, hcs⟩ := List.forall_mem_cons.mp h
    rw [List.cons_append, expand?_cons _ hc.1 hc.2, ih hcs, Option.map_map]
    rfl

theorem expand?_doubled {cs : List Char} (h : '\n' ∉ cs) (rest : List Char) :
    expand? env ((cs.flatMap fun c => if c = '$' then ['$', '$'] else [c]) ++ rest) =
      (expand? env rest).map (cs ++ ·) := by
  induction cs with
  | nil => simp
  | cons c cs ih =>
    obtain ⟨hc, hcs⟩ := not_or.mp (List.mem_cons.not.mp h)
    rw [List.flatMap_cons, List.append_assoc]
    by_cases hdollar : c = '$'
    · subst hdollar
      rw [if_pos rfl]
      have hpair : ∀ text, expand? env ('$' :: '$' :: text) = (expand? env text).map ('$' :: ·) :=
        fun _ => rfl
      rw [List.cons_append, List.cons_append, List.nil_append, hpair, ih hcs, Option.map_map]
      rfl
    · rw [if_neg hdollar, List.cons_append, List.nil_append,
        expand?_cons _ hdollar (Ne.symm hc), ih hcs, Option.map_map]
      rfl

theorem expandFrom_name {front : List Char} {rest : List Char}
    (hrest : rest.head?.any isVariableChar = false) :
    expandFrom env (.name front) rest =
      (expand? env rest).map (env (String.ofList front) ++ ·) := by
  cases rest with
  | nil => simp [expandFrom, expand?]
  | cons c rest =>
    rw [List.head?_cons, Option.any_some] at hrest
    simp [expandFrom, expand?, hrest]

theorem expandFrom_name_append {front name : List Char}
    (hname : ∀ c ∈ name, isVariableChar c = true) {rest : List Char}
    (hrest : rest.head?.any isVariableChar = false) :
    expandFrom env (.name front) (name ++ rest) =
      (expand? env rest).map (env (String.ofList (front ++ name)) ++ ·) := by
  induction name generalizing front with
  | nil => rw [List.nil_append, List.append_nil, expandFrom_name hrest]
  | cons c name ih =>
    obtain ⟨hc, hname⟩ := List.forall_mem_cons.mp hname
    have hstep : expandFrom env (.name front) (c :: name ++ rest) =
        expandFrom env (.name (front ++ [c])) (name ++ rest) := by
      simp [expandFrom, hc]
    rw [hstep, ih hname, List.append_assoc]
    rfl

theorem expand?_reference {name : List Char} (hne : name ≠ [])
    (hname : ∀ c ∈ name, isVariableChar c = true) {rest : List Char}
    (hrest : rest.head?.any isVariableChar = false) :
    expand? env ('$' :: name ++ rest) = (expand? env rest).map (env (String.ofList name) ++ ·) := by
  obtain ⟨c, name, rfl⟩ := List.exists_cons_of_ne_nil hne
  obtain ⟨hc, hname⟩ := List.forall_mem_cons.mp hname
  have hstep : expand? env ('$' :: (c :: name) ++ rest) =
      expandFrom env (.name [c]) (name ++ rest) := by
    have hplain : ∀ d, isVariableChar d = false → c ≠ d := fun d hd heq => by
      rw [heq, hd] at hc
      cases hc
    simp [expand?, expandFrom, hc, hplain '$' rfl, hplain ' ' rfl, hplain ':' rfl,
      hplain '\x7b' rfl]
  rw [hstep, expandFrom_name_append hname hrest]
  rfl

/-- What is read from a text with something behind it: something that has no more dollar signs than
the text, and what is read from the rest. -/
def Cuts (env : String → List Char) (cs rest out : List Char) : Prop :=
  ∃ front behind, out = front ++ behind ∧ expand? env rest = some behind ∧
    front.count '$' ≤ cs.count '$'

theorem Cuts.prepend {cs rest out : List Char} (h : Cuts env cs rest out) {front : List Char}
    (text : List Char) (hfront : front.count '$' ≤ text.count '$') :
    Cuts env (text ++ cs) rest (front ++ out) := by
  obtain ⟨front', behind, rfl, hbehind, hcount⟩ := h
  refine ⟨front ++ front', behind, (List.append_assoc ..).symm, hbehind, ?_⟩
  rw [List.count_append, List.count_append]
  omega

theorem cuts_nil (henv : ∀ name, '$' ∉ env name) {mode : Mode} {rest out : List Char}
    (hrest : EndsWord rest) (h : expandFrom env mode rest = some out) : Cuts env [] rest out := by
  cases mode with
  | plain => exact ⟨[], out, rfl, h, Nat.le_refl _⟩
  | name front =>
    have hname : rest.head?.any isVariableChar = false := by
      rcases hrest with rfl | hrest
      · rfl
      · rw [hrest]
        rfl
    rw [expandFrom_name hname] at h
    obtain ⟨behind, hbehind, rfl⟩ := Option.map_eq_some_iff.mp h
    exact ⟨_, behind, rfl, hbehind, Nat.le_of_eq (List.count_eq_zero.mpr (henv _))⟩
  | dollar =>
    rcases hrest with rfl | hrest
    · cases h
    · obtain ⟨rest, rfl⟩ := List.head?_eq_some_iff.mp hrest
      exact ⟨[], out, rfl, h, Nat.le_refl _⟩
  | braced front =>
    rcases hrest with rfl | hrest
    · cases h
    · obtain ⟨rest, rfl⟩ := List.head?_eq_some_iff.mp hrest
      cases h

theorem cuts_of_expandFrom (henv : ∀ name, '$' ∉ env name) {mode : Mode} {cs rest out : List Char}
    (hrest : EndsWord rest) (h : expandFrom env mode (cs ++ rest) = some out) :
    Cuts env cs rest out := by
  induction cs generalizing mode out with
  | nil => exact cuts_nil henv hrest h
  | cons c cs ih =>
    have hself : ∀ {out}, (expandFrom env .plain (cs ++ rest)).map (c :: ·) = some out →
        Cuts env (c :: cs) rest out := by
      intro out h
      obtain ⟨out, hout, rfl⟩ := Option.map_eq_some_iff.mp h
      exact (ih hout).prepend [c] (Nat.le_refl ([c].count '$'))
    have hskip : ∀ {mode out}, expandFrom env mode (cs ++ rest) = some out →
        Cuts env (c :: cs) rest out := by
      intro mode out h
      have hnone : ([] : List Char).count '$' ≤ [c].count '$' := Nat.zero_le _
      exact (ih h).prepend [c] hnone
    have hvalue : ∀ {out} name, Cuts env (c :: cs) rest out →
        Cuts env (c :: cs) rest (env name ++ out) := by
      intro out name h
      exact h.prepend [] (Nat.le_of_eq (List.count_eq_zero.mpr (henv name)))
    have hplain : ∀ {out}, expandFrom env .plain (c :: (cs ++ rest)) = some out →
        Cuts env (c :: cs) rest out := by
      intro out h
      rw [expandFrom] at h
      split_ifs at h
      · exact hskip h
      · exact hself h
    cases mode with
    | plain => exact hplain h
    | dollar =>
      rw [List.cons_append, expandFrom] at h
      split_ifs at h
      · exact hself h
      · exact hskip h
      · exact hskip h
    | name front =>
      rw [List.cons_append, expandFrom] at h
      split_ifs at h with hname
      · exact hskip h
      · obtain ⟨out, hout, rfl⟩ := Option.map_eq_some_iff.mp h
        exact hvalue _ (hskip hout)
      · cases h
      · obtain ⟨out, hout, rfl⟩ := Option.map_eq_some_iff.mp h
        exact hvalue _ (hself hout)
    | braced front =>
      rw [List.cons_append, expandFrom] at h
      split_ifs at h
      · obtain ⟨out, hout, rfl⟩ := Option.map_eq_some_iff.mp h
        exact hvalue _ (hskip hout)
      · exact hskip h

theorem expand?_cut (henv : ∀ name, '$' ∉ env name) {cs rest out : List Char}
    (hrest : EndsWord rest) (h : expand? env (cs ++ rest) = some out) :
    ∃ front behind, out = front ++ behind ∧ expand? env rest = some behind ∧
      front.count '$' ≤ cs.count '$' ∧
      (front.count '$' = cs.count '$' → front = cs ∧ '$' ∉ cs) := by
  induction cs generalizing out with
  | nil => exact ⟨[], out, rfl, h, Nat.le_refl _, fun _ => ⟨rfl, List.not_mem_nil⟩⟩
  | cons c cs ih =>
    by_cases hdollar : c = '$'
    · subst hdollar
      have hout : expandFrom env .dollar (cs ++ rest) = some out := h
      obtain ⟨front, behind, rfl, hbehind, hcount⟩ := cuts_of_expandFrom henv hrest hout
      have hmore : ('$' :: cs).count '$' = cs.count '$' + 1 := List.count_cons_self
      exact ⟨front, behind, rfl, hbehind, by omega, fun heq => by omega⟩
    · have hline : c ≠ '\n' := by
        rintro rfl
        cases h
      rw [List.cons_append, expand?_cons _ hdollar hline] at h
      obtain ⟨out, hout, rfl⟩ := Option.map_eq_some_iff.mp h
      obtain ⟨front, behind, rfl, hbehind, hcount, hall⟩ := ih hout
      have hsame : ∀ l : List Char, (c :: l).count '$' = l.count '$' := fun l =>
        List.count_cons_of_ne hdollar
      refine ⟨c :: front, behind, rfl, hbehind, by rwa [hsame, hsame], fun heq => ?_⟩
      rw [hsame, hsame] at heq
      obtain ⟨rfl, hnone⟩ := hall heq
      exact ⟨rfl, fun hd => hnone ((List.mem_cons.mp hd).resolve_left (Ne.symm hdollar))⟩

end Ninja

end BuildPlan
