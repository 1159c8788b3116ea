import BuildPlan.Path
import Mathlib.Data.List.Basic
import Mathlib.Tactic.SplitIfs

/-!
# The components of paths that are put together

What a path means is its components. Here they are computed for the paths that other functions
make: of a path joined to another one (`components_join`), of components written out
(`components_joinComponents`), and of what is left behind a base (`components_stripBase?`).
-/

namespace BuildPlan

/-! ## Splitting and joining -/

namespace Text

theorem split_ne_nil (sep : Char) (cs : List Char) : split sep cs ≠ [] := by
  cases cs with
  | nil => simp [split]
  | cons c cs =>
    rw [split]
    split_ifs
    · simp
    · split <;> simp

theorem split_cons_of_ne {sep c : Char} (hc : c ≠ sep) (cs : List Char) :
    ∃ p ps, split sep cs = p :: ps ∧ split sep (c :: cs) = (c :: p) :: ps := by
  obtain ⟨p, ps, h⟩ := List.exists_cons_of_ne_nil (split_ne_nil sep cs)
  exact ⟨p, ps, h, by rw [split, if_neg hc, h]⟩

theorem split_append_sep (sep : Char) (cs rest : List Char) :
    split sep (cs ++ sep :: rest) = split sep cs ++ split sep rest := by
  induction cs with
  | nil => simp [split]
  | cons c cs ih =>
    by_cases hc : c = sep
    · simp [split, hc, ih]
    · obtain ⟨p, ps, h, hcons⟩ := split_cons_of_ne hc cs
      obtain ⟨q, qs, h', hcons'⟩ := split_cons_of_ne hc (cs ++ sep :: rest)
      rw [ih, h, List.cons_append] at h'
      obtain ⟨rfl, rfl⟩ := List.cons.inj h'
      rw [List.cons_append, hcons, hcons', List.cons_append]

theorem split_of_notMem {sep : Char} {cs : List Char} (h : sep ∉ cs) : split sep cs = [cs] := by
  induction cs with
  | nil => rfl
  | cons c cs ih =>
    obtain ⟨hc, hcs⟩ := not_or.mp (fun hmem => h (List.mem_cons.mpr hmem))
    rw [split, if_neg (Ne.symm hc), ih hcs]

theorem flatMap_of_notMem {c : Char} {cs : List Char} (h : c ∉ cs) (new : List Char) :
    (cs.flatMap fun d => if d = c then new else [d]) = cs := by
  have hkept : ∀ d ∈ cs, (if d = c then new else [d]) = [d] := fun d hd =>
    if_neg (by rintro rfl; exact h hd)
  rw [List.flatMap_congr hkept, List.flatMap_singleton']

theorem notMem_of_mem_split {sep : Char} {cs p : List Char} (hp : p ∈ split sep cs) : sep ∉ p := by
  induction cs generalizing p with
  | nil =>
    rw [split, List.mem_singleton] at hp
    simp [hp]
  | cons c cs ih =>
    by_cases hc : c = sep
    · rw [split, if_pos hc, List.mem_cons] at hp
      rcases hp with rfl | hp
      · exact List.not_mem_nil
      · exact ih hp
    · obtain ⟨q, qs, h, hcons⟩ := split_cons_of_ne hc cs
      rw [hcons, List.mem_cons] at hp
      rcases hp with rfl | hp
      · rw [List.mem_cons, not_or]
        exact ⟨Ne.symm hc, ih (h ▸ List.mem_cons_self)⟩
      · exact ih (h ▸ List.mem_cons_of_mem q hp)

theorem split_append_of_notMem (sep : Char) (cs : List Char) :
    ∃ front last, ∀ tail, sep ∉ tail → split sep (cs ++ tail) = front ++ [last ++ tail] := by
  induction cs with
  | nil => exact ⟨[], [], fun tail h => split_of_notMem h⟩
  | cons c cs ih =>
    obtain ⟨front, last, hsplit⟩ := ih
    by_cases hc : c = sep
    · exact ⟨[] :: front, last, fun tail h => by simp [split, hc, hsplit tail h]⟩
    · -- the character only joins the last part where that is the only one
      cases front with
      | nil => exact ⟨[], c :: last, fun tail h => by simp [split, hc, hsplit tail h]⟩
      | cons p ps => exact ⟨(c :: p) :: ps, last, fun tail h => by simp [split, hc, hsplit tail h]⟩

theorem split_joinWith_eq_flatMap {sep : Char} {s : String} (hs : s.toList = [sep])
    {words : List String} (hne : words ≠ []) :
    split sep (joinWith s words).toList = words.flatMap fun w => split sep w.toList := by
  fun_induction joinWith s words with
  | case1 => exact absurd rfl hne
  | case2 w => simp
  | case3 w rest hrest ih =>
    rw [String.toList_append, String.toList_append, hs, List.append_assoc, List.singleton_append,
      split_append_sep, ih hrest, List.flatMap_cons]

theorem split_joinWith {parts : List (List Char)} (hne : parts ≠ [])
    (hparts : ∀ p ∈ parts, '/' ∉ p) :
    split '/' (joinWith "/" (parts.map String.ofList)).toList = parts := by
  have hwhole : ∀ p ∈ parts, split '/' (String.ofList p).toList = [p] := fun p hp => by
    rw [String.toList_ofList, split_of_notMem (hparts p hp)]
  rw [split_joinWith_eq_flatMap rfl (by simpa using hne), List.flatMap_map,
    List.flatMap_congr hwhole, ← List.map_eq_flatMap, List.map_id']

theorem split_injective (sep : Char) : Function.Injective (split sep) := by
  intro cs ds h
  induction cs generalizing ds with
  | nil =>
    cases ds with
    | nil => rfl
    | cons d ds =>
      by_cases hd : d = sep
      · rw [split, split, if_pos hd] at h
        exact absurd (List.cons.inj h).2.symm (split_ne_nil sep ds)
      · obtain ⟨q, qs, -, hcons⟩ := split_cons_of_ne hd ds
        rw [split, hcons] at h
        exact absurd (List.cons.inj h).1 (by simp)
  | cons c cs ih =>
    cases ds with
    | nil =>
      by_cases hc : c = sep
      · rw [split, split, if_pos hc] at h
        exact absurd (List.cons.inj h).2 (split_ne_nil sep cs)
      · obtain ⟨p, ps, -, hcons⟩ := split_cons_of_ne hc cs
        rw [split, hcons] at h
        exact absurd (List.cons.inj h).1 (by simp)
    | cons d ds =>
      by_cases hc : c = sep <;> by_cases hd : d = sep
      · rw [split, split, if_pos hc, if_pos hd] at h
        rw [hc, hd, ih (List.cons.inj h).2]
      · obtain ⟨q, qs, -, hcons⟩ := split_cons_of_ne hd ds
        rw [split, if_pos hc, hcons] at h
        exact absurd (List.cons.inj h).1 (by simp)
      · obtain ⟨p, ps, -, hcons⟩ := split_cons_of_ne hc cs
        rw [hcons, split, if_pos hd] at h
        exact absurd (List.cons.inj h).1 (by simp)
      · obtain ⟨p, ps, hp, hcons⟩ := split_cons_of_ne hc cs
        obtain ⟨q, qs, hq, hcons'⟩ := split_cons_of_ne hd ds
        rw [hcons, hcons'] at h
        obtain ⟨hhead, hrest⟩ := List.cons.inj h
        obtain ⟨hchar, hpart⟩ := List.cons.inj hhead
        rw [hchar, ih (hp.trans (by rw [hpart, hrest, hq]))]

end Text

namespace Path

open Text (split)

/-! ## Lead and steps -/

/-- What a path starts with by its form. -/
def lead (path : String) : List Component :=
  if isAbsolute path then [.root]
  else if (split '/' path.toList).head? = some ['.'] then [.current] else []

/-- The components that parts are, idle ones left out. -/
def stepsOf (parts : List (List Char)) : List Component :=
  (parts.filter (!isIdle ·)).map componentOf

/-- The components of a path behind its lead. -/
def steps (path : String) : List Component :=
  stepsOf (split '/' path.toList)

theorem stepsOf_append (parts others : List (List Char)) :
    stepsOf (parts ++ others) = stepsOf parts ++ stepsOf others := by
  simp [stepsOf]

theorem stepsOf_cons_idle {part : List Char} (h : isIdle part = true) (rest : List (List Char)) :
    stepsOf (part :: rest) = stepsOf rest := by
  simp [stepsOf, h]

theorem stepsOf_cons_of_not_idle {part : List Char} (h : isIdle part = false)
    (rest : List (List Char)) : stepsOf (part :: rest) = componentOf part :: stepsOf rest := by
  simp [stepsOf, h]

theorem parts_of_absolute {path : String} {cs : List Char} (h : path.toList = '/' :: cs) :
    parts path = ⟨true, false, split '/' cs⟩ := by
  rw [parts, h]
  rfl

theorem parts_of_dotted {path : String} {rest : List (List Char)}
    (habs : isAbsolute path = false) (h : split '/' path.toList = ['.'] :: rest) :
    parts path = ⟨false, true, rest⟩ := by
  rw [parts]
  split
  · rename_i cs hcs
    simp [isAbsolute, hcs] at habs
  · rw [h]
    rfl

theorem parts_of_plain {path : String} (habs : isAbsolute path = false)
    (h : (split '/' path.toList).head? ≠ some ['.']) :
    parts path = ⟨false, false, split '/' path.toList⟩ := by
  rw [parts]
  split
  · rename_i cs hcs
    simp [isAbsolute, hcs] at habs
  · split
    · rename_i hsplit
      simp [hsplit] at h
    · rfl

theorem toList_of_absolute {path : String} (habs : isAbsolute path = true) :
    ∃ cs, path.toList = '/' :: cs := by
  rw [isAbsolute, beq_iff_eq] at habs
  exact List.head?_eq_some_iff.mp habs

theorem isAbsolute_of_split {path : String} {p : List Char} {rest : List (List Char)}
    (h : split '/' path.toList = p :: rest) (hp : p ≠ []) : isAbsolute path = false := by
  rw [Bool.eq_false_iff]
  intro habs
  obtain ⟨cs, hcs⟩ := toList_of_absolute habs
  rw [hcs, split, if_pos rfl] at h
  exact hp (List.cons.inj h).1.symm

theorem parts_spec (path : String) :
    (parts path).lead = lead path ∧ stepsOf (parts path).rest = steps path := by
  cases habs : isAbsolute path with
  | true =>
    obtain ⟨cs, hcs⟩ := toList_of_absolute habs
    rw [parts_of_absolute hcs, lead, if_pos habs, steps, hcs, split, if_pos rfl]
    exact ⟨rfl, (stepsOf_cons_idle rfl _).symm⟩
  | false =>
    rw [lead, habs, if_neg Bool.false_ne_true]
    by_cases hdot : (split '/' path.toList).head? = some ['.']
    · obtain ⟨rest, hrest⟩ := List.head?_eq_some_iff.mp hdot
      rw [parts_of_dotted habs hrest, if_pos hdot, steps, hrest]
      exact ⟨rfl, (stepsOf_cons_idle rfl _).symm⟩
    · rw [parts_of_plain habs hdot, if_neg hdot]
      exact ⟨rfl, rfl⟩

theorem components_eq (path : String) : components path = lead path ++ steps path := by
  obtain ⟨hlead, hsteps⟩ := parts_spec path
  rw [← hlead, ← hsteps]
  rfl

theorem isIdle_nil : isIdle [] = true := by rfl

/-! ## Joined paths -/

/-- The parts of a joined path: those of the base, but for an idle one at its end, and those of the
path below it. -/
theorem split_join {base rel : String} (hbase : base ≠ "") (hrel : isAbsolute rel = false) :
    ∃ front, split '/' (join base rel).toList = front ++ split '/' rel.toList ∧
      stepsOf front = steps base ∧ front.head? = (split '/' base.toList).head? := by
  have hempty : base.isEmpty = false := by simpa using hbase
  rw [join, hrel, hempty, Bool.or_self, if_neg Bool.false_ne_true]
  by_cases hlast : base.toList.getLast? = some '/'
  · obtain ⟨cs, hcs⟩ := List.getLast?_eq_some_iff.mp hlast
    have hsplit : split '/' base.toList = split '/' cs ++ [[]] := by
      rw [hcs, Text.split_append_sep, split]
    refine ⟨split '/' cs, ?_, ?_, ?_⟩
    · rw [if_pos hlast, String.toList_append, hcs, List.append_assoc, List.singleton_append,
        Text.split_append_sep]
    · rw [steps, hsplit, stepsOf_append, stepsOf_cons_idle isIdle_nil, stepsOf, stepsOf,
        List.filter_nil, List.map_nil, List.append_nil]
    · obtain ⟨p, ps, hp⟩ := List.exists_cons_of_ne_nil (Text.split_ne_nil '/' cs)
      rw [hsplit, hp, List.cons_append, List.head?_cons, List.head?_cons]
  · refine ⟨split '/' base.toList, ?_, rfl, rfl⟩
    rw [if_neg hlast, String.toList_append, String.toList_append,
      show "/".toList = ['/'] from rfl, List.append_assoc, List.singleton_append,
      Text.split_append_sep]

theorem isAbsolute_join {base rel : String} (hbase : base ≠ "") (hrel : isAbsolute rel = false) :
    isAbsolute (join base rel) = isAbsolute base := by
  have hne : base.toList ≠ [] := by simpa using hbase
  obtain ⟨c, cs, hcs⟩ := List.exists_cons_of_ne_nil hne
  have hempty : base.isEmpty = false := by simpa using hbase
  rw [join, hrel, hempty, Bool.or_self, if_neg Bool.false_ne_true]
  split_ifs
  · simp [isAbsolute, hcs]
  · simp [isAbsolute, hcs]

theorem components_join {base rel : String} (hbase : base ≠ "") (hrel : isAbsolute rel = false) :
    components (join base rel) = components base ++ steps rel := by
  obtain ⟨front, hsplit, hsteps, hhead⟩ := split_join hbase hrel
  obtain ⟨p, ps, hp⟩ := List.exists_cons_of_ne_nil (Text.split_ne_nil '/' base.toList)
  obtain ⟨rest, hfront⟩ : ∃ rest, front = p :: rest := by
    rw [hp, List.head?_cons] at hhead
    exact List.head?_eq_some_iff.mp hhead
  have hlead : lead (join base rel) = lead base := by
    rw [lead, lead, isAbsolute_join hbase hrel, hsplit, hfront, hp, List.cons_append,
      List.head?_cons, List.head?_cons]
  rw [components_eq, components_eq, hlead, steps, hsplit, stepsOf_append, hsteps, List.append_assoc]
  rfl

theorem join_of_absolute {base rel : String} (hrel : isAbsolute rel = true) :
    join base rel = rel := by
  rw [join, hrel, Bool.true_or, if_pos rfl]

theorem join_empty (rel : String) : join "" rel = rel := by
  rw [join, show "".isEmpty = true from rfl, Bool.or_true, if_pos rfl]

/-- A text that can be the name of something in a directory. -/
def IsName (name : String) : Prop :=
  isIdle name.toList = false ∧ name.toList ≠ ['.', '.'] ∧ '/' ∉ name.toList

instance (name : String) : Decidable (IsName name) :=
  inferInstanceAs (Decidable (_ ∧ _ ∧ _))

theorem IsName.isAbsolute {name : String} (h : IsName name) : isAbsolute name = false := by
  rw [Path.isAbsolute, beq_eq_false_iff_ne]
  intro hhead
  obtain ⟨cs, hcs⟩ := List.head?_eq_some_iff.mp hhead
  exact h.2.2 (hcs ▸ List.mem_cons_self)

theorem IsName.steps {name : String} (h : IsName name) : steps name = [.name name] := by
  rw [Path.steps, Text.split_of_notMem h.2.2, stepsOf_cons_of_not_idle h.1, componentOf,
    if_neg h.2.1, String.ofList_toList]
  rfl

theorem IsName.lead {name : String} (h : IsName name) : lead name = [] := by
  have hdot : name.toList ≠ ['.'] := by
    intro hdot
    have hidle := h.1
    rw [hdot] at hidle
    exact absurd hidle (by decide)
  rw [Path.lead, h.isAbsolute, if_neg Bool.false_ne_true, Text.split_of_notMem h.2.2,
    List.head?_cons, if_neg (by simpa using hdot)]

theorem isName_of_length {part : List Char} (hlength : 2 < part.length) (hslash : '/' ∉ part) :
    IsName (String.ofList part) := by
  refine ⟨?_, ?_, by rwa [String.toList_ofList]⟩
  · rw [String.toList_ofList, isIdle, Bool.or_eq_false_iff, beq_eq_false_iff_ne, beq_eq_false_iff_ne]
    constructor <;> rintro rfl <;> simp at hlength
  · rw [String.toList_ofList]
    rintro rfl
    simp at hlength

theorem components_join_name {base name : String} (h : IsName name) :
    components (join base name) = components base ++ [.name name] := by
  by_cases hbase : base = ""
  · rw [hbase, join_empty, components_eq, h.lead, h.steps]
    rfl
  · rw [components_join hbase h.isAbsolute, h.steps]

theorem join_of_slash {base name : String} (hbase : base.toList.getLast? = some '/')
    (hname : isAbsolute name = false) : join base name = base ++ name := by
  have hne : base.isEmpty = false := by
    rw [Bool.eq_false_iff]
    intro hempty
    rw [String.isEmpty_iff.mp hempty] at hbase
    cases hbase
  rw [join, hname, hne, Bool.or_self, if_neg Bool.false_ne_true, if_pos hbase]

theorem join_below (root dir : String) {name : String} (h : IsName name) :
    join root (dir ++ "/" ++ name) = join (join root (dir ++ "/")) name := by
  have hslash : (dir ++ "/").toList.getLast? = some '/' := by
    rw [String.toList_append, show "/".toList = ['/'] from rfl, List.getLast?_concat]
  have habs : isAbsolute (dir ++ "/" ++ name) = isAbsolute (dir ++ "/") := by
    cases hdir : dir.toList with
    | nil => simp [isAbsolute, hdir]
    | cons c cs => simp [isAbsolute, hdir]
  have hlast : (join root (dir ++ "/")).toList.getLast? = some '/' := by
    rw [join]
    split_ifs
    · exact hslash
    · rw [String.toList_append, List.getLast?_append, hslash]
      rfl
    · rw [String.toList_append, List.getLast?_append, hslash]
      rfl
  rw [join_of_slash hlast h.isAbsolute, join, join, habs]
  split_ifs
  · rfl
  · simp only [String.append_assoc]
  · simp only [String.append_assoc]

theorem components_append_slash {dir : String} (h : dir ≠ "") :
    components (dir ++ "/") = components dir := by
  have hne : dir.toList ≠ [] := by simpa using h
  have hsplit : split '/' (dir ++ "/").toList = split '/' dir.toList ++ [[]] := by
    rw [String.toList_append, show "/".toList = '/' :: [] from rfl, Text.split_append_sep]
    rfl
  have habs : isAbsolute (dir ++ "/") = isAbsolute dir := by
    obtain ⟨c, cs, hcs⟩ := List.exists_cons_of_ne_nil hne
    simp [isAbsolute, hcs]
  have hsteps : steps (dir ++ "/") = steps dir := by
    rw [steps, hsplit, stepsOf_append, stepsOf_cons_idle isIdle_nil]
    exact List.append_nil _
  have hhead : (split '/' (dir ++ "/").toList).head? = (split '/' dir.toList).head? := by
    rw [hsplit]
    obtain ⟨p, ps, hp⟩ := List.exists_cons_of_ne_nil (Text.split_ne_nil '/' dir.toList)
    rw [hp]
    rfl
  rw [components_eq, components_eq, hsteps, lead, lead, habs, hhead]

theorem components_below (dir rel : String) :
    components (dir ++ "/" ++ rel) = components (dir ++ "/") ++ steps rel := by
  have htext : (dir ++ "/" ++ rel).toList = dir.toList ++ '/' :: rel.toList := by simp
  have hslash : (dir ++ "/").toList = dir.toList ++ '/' :: [] := by simp
  have habs : isAbsolute (dir ++ "/" ++ rel) = isAbsolute (dir ++ "/") := by
    rw [isAbsolute, isAbsolute, htext, hslash]
    cases dir.toList <;> rfl
  have hlead : lead (dir ++ "/" ++ rel) = lead (dir ++ "/") := by
    obtain ⟨p, ps, hp⟩ := List.exists_cons_of_ne_nil (Text.split_ne_nil '/' dir.toList)
    rw [lead, lead, habs, htext, hslash, Text.split_append_sep, Text.split_append_sep, hp]
    rfl
  have hsteps : steps (dir ++ "/") = stepsOf (split '/' dir.toList) := by
    rw [steps, hslash, Text.split_append_sep, stepsOf_append]
    exact List.append_nil _
  rw [components_eq, components_eq, hlead, hsteps, steps, htext, Text.split_append_sep,
    stepsOf_append, List.append_assoc]
  rfl

/-! ## Components written out -/

theorem steps_joinWith {parts : List (List Char)} (hparts : ∀ p ∈ parts, '/' ∉ p) :
    steps (Text.joinWith "/" (parts.map String.ofList)) = stepsOf parts := by
  cases parts with
  | nil => decide
  | cons p rest => rw [steps, Text.split_joinWith (List.cons_ne_nil p rest) hparts]

theorem lead_joinWith {parts : List (List Char)} (hparts : ∀ p ∈ parts, '/' ∉ p)
    (hhead : ∀ p ∈ parts.head?, isIdle p = false) :
    lead (Text.joinWith "/" (parts.map String.ofList)) = [] := by
  cases parts with
  | nil => decide
  | cons p rest =>
    have hp : isIdle p = false := hhead p rfl
    have hsplit := Text.split_joinWith (List.cons_ne_nil p rest) hparts
    have hempty : p ≠ [] := by
      rintro rfl
      exact absurd hp (by decide)
    have hdot : p ≠ ['.'] := by
      rintro rfl
      exact absurd hp (by decide)
    rw [lead, isAbsolute_of_split hsplit hempty, if_neg Bool.false_ne_true, hsplit, List.head?_cons,
      if_neg (by simpa using hdot)]

/-- A component that does not depend on standing first. -/
def IsStep : Component → Prop
  | .parent => True
  | .name s => IsName s
  | _ => False

theorem isStep_componentOf {part : List Char} (hidle : isIdle part = false) (hpart : '/' ∉ part) :
    IsStep (componentOf part) := by
  rw [componentOf]
  split_ifs with hup
  · trivial
  · exact ⟨by rwa [String.toList_ofList], by rwa [String.toList_ofList],
      by rwa [String.toList_ofList]⟩

theorem isStep_of_mem_steps {path : String} {c : Component} (hc : c ∈ steps path) : IsStep c := by
  rw [steps, stepsOf, List.mem_map] at hc
  obtain ⟨part, hpart, rfl⟩ := hc
  rw [List.mem_filter] at hpart
  exact isStep_componentOf (by simpa using hpart.2) (Text.notMem_of_mem_split hpart.1)

theorem isStep_of_mem_tail {path : String} {c : Component} (hc : c ∈ (components path).tail) :
    IsStep c := by
  have hsteps : c ∈ steps path := by
    rw [components_eq, lead] at hc
    split_ifs at hc
    · exact hc
    · exact hc
    · exact List.mem_of_mem_tail hc
  exact isStep_of_mem_steps hsteps

theorem IsStep.part {c : Component} (hc : IsStep c) :
    isIdle c.text.toList = false ∧ '/' ∉ c.text.toList ∧ componentOf c.text.toList = c := by
  cases c with
  | root => exact hc.elim
  | current => exact hc.elim
  | parent => decide
  | name s => exact ⟨hc.1, hc.2.2, by rw [Component.text, componentOf, if_neg hc.2.1,
      String.ofList_toList]⟩

/-- Whether a component has to stand first. -/
def isLead : Component → Bool
  | .root => true
  | .current => true
  | _ => false

theorem IsStep.isLead {c : Component} (hc : IsStep c) : isLead c = false := by
  cases c with
  | root => exact hc.elim
  | current => exact hc.elim
  | parent => rfl
  | name s => rfl

theorem lead_eq_filter (path : String) : lead path = (components path).filter isLead := by
  have hsteps : (steps path).filter isLead = [] := by
    rw [List.filter_eq_nil_iff]
    exact fun c hc => by simp [(isStep_of_mem_steps hc).isLead]
  rw [components_eq, List.filter_append, hsteps, List.append_nil, lead]
  split_ifs <;> rfl

theorem steps_eq_filter (path : String) : steps path = (components path).filter (!isLead ·) := by
  have hlead : (lead path).filter (!isLead ·) = [] := by
    rw [lead]
    split_ifs <;> rfl
  have hsteps : (steps path).filter (!isLead ·) = steps path := by
    rw [List.filter_eq_self]
    exact fun c hc => by simp [(isStep_of_mem_steps hc).isLead]
  rw [components_eq, List.filter_append, hlead, hsteps, List.nil_append]

theorem isAbsolute_iff_lead {path : String} : isAbsolute path = true ↔ lead path = [.root] := by
  rw [lead]
  split_ifs <;> simp_all

theorem isAbsolute_iff_head {path : String} :
    isAbsolute path = true ↔ (components path).head? = some .root := by
  rw [components_eq, lead]
  split_ifs with habs hdot
  · simp [habs]
  · simp [habs]
  · have hroot : (steps path).head? ≠ some .root := by
      intro hhead
      exact (isStep_of_mem_steps (List.mem_of_mem_head? hhead)).elim
    simp [habs, hroot]

/-- Joining looks at nothing but the components. -/
theorem components_join_congr {base rel rel' : String} (h : components rel = components rel') :
    components (join base rel) = components (join base rel') := by
  by_cases hbase : base = ""
  · rw [hbase, join_empty, join_empty, h]
  · have hlead : lead rel = lead rel' := by rw [lead_eq_filter, lead_eq_filter, h]
    cases habs : isAbsolute rel with
    | true =>
      have habs' : isAbsolute rel' = true := by
        rw [isAbsolute_iff_lead, ← hlead, ← isAbsolute_iff_lead, habs]
      rw [join_of_absolute habs, join_of_absolute habs', h]
    | false =>
      have habs' : isAbsolute rel' = false := by
        rw [Bool.eq_false_iff, Ne, isAbsolute_iff_lead, ← hlead, ← isAbsolute_iff_lead, habs]
        exact Bool.false_ne_true
      rw [components_join hbase habs, components_join hbase habs', steps_eq_filter, h,
        ← steps_eq_filter]

theorem stepsOf_texts {cs : List Component} (hcs : ∀ c ∈ cs, IsStep c) :
    stepsOf (cs.map (·.text.toList)) = cs := by
  induction cs with
  | nil => rfl
  | cons c cs ih =>
    obtain ⟨hidle, -, hc⟩ := (hcs c List.mem_cons_self).part
    rw [List.map_cons, stepsOf_cons_of_not_idle hidle, hc,
      ih fun d hd => hcs d (List.mem_cons_of_mem c hd)]

theorem map_text_names (names : List String) :
    (names.map Component.name).map Component.text = names := by
  rw [List.map_map]
  exact List.map_id names

theorem joinComponents_eq (cs : List Component) :
    joinComponents cs = Text.joinWith "/" ((cs.map (·.text.toList)).map String.ofList) := by
  simp [joinComponents, Function.comp_def]

theorem lead_steps_joinComponents {cs : List Component} (hcs : ∀ c ∈ cs, IsStep c) :
    lead (joinComponents cs) = [] ∧ steps (joinComponents cs) = cs := by
  have hparts : ∀ p ∈ cs.map (·.text.toList), '/' ∉ p ∧ isIdle p = false := by
    intro p hp
    obtain ⟨c, hc, rfl⟩ := List.mem_map.mp hp
    exact ⟨(hcs c hc).part.2.1, (hcs c hc).part.1⟩
  have hsteps := steps_joinWith fun p hp => (hparts p hp).1
  have hlead := lead_joinWith (fun p hp => (hparts p hp).1)
    fun p hp => (hparts p (List.mem_of_mem_head? hp)).2
  rw [← joinComponents_eq] at hlead hsteps
  exact ⟨hlead, hsteps.trans (stepsOf_texts hcs)⟩

theorem components_lead_joinComponents {cs : List Component} (hcs : ∀ c ∈ cs, IsStep c)
    {c : Component} (hc : c = .root ∨ c = .current) :
    components (joinComponents (c :: cs)) = c :: cs := by
  cases cs with
  | nil => rcases hc with rfl | rfl <;> decide
  | cons d cs =>
    obtain ⟨-, hsteps⟩ := lead_steps_joinComponents hcs
    rw [steps] at hsteps
    have htext : (joinComponents (c :: d :: cs)).toList =
        c.text.toList ++ '/' :: (joinComponents (d :: cs)).toList := by
      rw [joinComponents, List.map_cons, List.map_cons, Text.joinWith, ← List.map_cons,
        ← joinComponents, String.toList_append, String.toList_append,
        show "/".toList = ['/'] from rfl, List.append_assoc, List.singleton_append]
      simp
    rw [components_eq, lead, steps, isAbsolute, htext, Text.split_append_sep, stepsOf_append,
      hsteps]
    rcases hc with rfl | rfl <;> rfl

/-- **Components written out are read back.** -/
theorem components_joinComponents (path : String) :
    components (joinComponents (components path)) = components path := by
  have hsteps : ∀ c ∈ steps path, IsStep c := fun c hc => isStep_of_mem_steps hc
  rw [components_eq path, lead]
  split_ifs
  · exact components_lead_joinComponents hsteps (.inl rfl)
  · exact components_lead_joinComponents hsteps (.inr rfl)
  · obtain ⟨hlead, hjoined⟩ := lead_steps_joinComponents hsteps
    rw [List.nil_append, components_eq, hlead, hjoined, List.nil_append]

/-! ## What is left behind a base -/

theorem filter_dropWhile_not {α : Type} (p : α → Bool) (l : List α) :
    (l.dropWhile p).filter (!p ·) = l.filter (!p ·) := by
  induction l with
  | nil => rfl
  | cons a l ih =>
    cases ha : p a with
    | true => simp [ha, ih]
    | false => simp [ha]

theorem stepsOf_dropIdleEnd (parts : List (List Char)) :
    stepsOf (dropIdleEnd parts) = stepsOf parts := by
  rw [stepsOf, stepsOf, dropIdleEnd, List.filter_reverse, filter_dropWhile_not,
    ← List.filter_reverse, List.reverse_reverse]

theorem dropIdleEnd_isPrefix (parts : List (List Char)) : dropIdleEnd parts <+: parts := by
  rw [dropIdleEnd, ← List.reverse_suffix, List.reverse_reverse]
  exact List.dropWhile_suffix _

theorem mem_head?_dropIdleEnd {parts : List (List Char)} {p : List Char}
    (hp : p ∈ (dropIdleEnd parts).head?) : p ∈ parts.head? := by
  obtain ⟨rest, hrest⟩ := List.head?_eq_some_iff.mp hp
  obtain ⟨back, hback⟩ := dropIdleEnd_isPrefix parts
  rw [← hback, hrest]
  rfl

theorem stepsOf_dropComponents (n : Nat) (parts : List (List Char)) :
    stepsOf (dropComponents n parts) = (stepsOf parts).drop n := by
  fun_induction dropComponents n parts with
  | case1 parts =>
    rw [stepsOf, filter_dropWhile_not]
    rfl
  | case2 n => rfl
  | case3 n part rest hidle ih => rw [ih, stepsOf_cons_idle hidle]
  | case4 n part rest hidle ih =>
    rw [ih, stepsOf_cons_of_not_idle (by simpa using hidle), List.drop_succ_cons]

theorem head?_dropComponents (n : Nat) (parts : List (List Char)) :
    ∀ p ∈ (dropComponents n parts).head?, isIdle p = false := by
  fun_induction dropComponents n parts with
  | case1 parts =>
    intro p hp
    have hnot := List.head?_dropWhile_not isIdle parts
    rw [Option.mem_def.mp hp] at hnot
    exact hnot
  | case2 n =>
    intro p hp
    cases hp
  | case3 n part rest hidle ih => exact ih
  | case4 n part rest hidle ih => exact ih

theorem dropComponents_suffix (n : Nat) (parts : List (List Char)) :
    dropComponents n parts <:+ parts := by
  fun_induction dropComponents n parts with
  | case1 parts => exact List.dropWhile_suffix _
  | case2 n => exact List.suffix_refl _
  | case3 n part rest hidle ih => exact ih.trans (List.suffix_cons part rest)
  | case4 n part rest hidle ih => exact ih.trans (List.suffix_cons part rest)

theorem notMem_of_mem_parts {path : String} {p : List Char} (hp : p ∈ (parts path).rest) :
    '/' ∉ p := by
  suffices h : (parts path).rest <:+ split '/' path.toList from
    Text.notMem_of_mem_split (h.subset hp)
  cases habs : isAbsolute path with
  | true =>
    obtain ⟨cs, hcs⟩ := toList_of_absolute habs
    rw [parts_of_absolute hcs, hcs, split, if_pos rfl]
    exact List.suffix_cons _ _
  | false =>
    by_cases hdot : (split '/' path.toList).head? = some ['.']
    · obtain ⟨rest, hrest⟩ := List.head?_eq_some_iff.mp hdot
      rw [parts_of_dotted habs hrest, hrest]
      exact List.suffix_cons _ _
    · exact parts_of_plain habs hdot ▸ List.suffix_refl _

theorem isIdle_head_split {path : String} (hpath : path ≠ "") (hlead : lead path = []) :
    ∀ p ∈ (split '/' path.toList).head?, isIdle p = false := by
  have hne : path.toList ≠ [] := by simpa using hpath
  obtain ⟨c, cs, hcs⟩ := List.exists_cons_of_ne_nil hne
  have hc : c ≠ '/' := by
    rintro rfl
    simp [lead, isAbsolute, hcs] at hlead
  obtain ⟨p, ps, -, hcons⟩ := Text.split_cons_of_ne hc cs
  have hdot : c :: p ≠ ['.'] := by
    intro hdot
    simp [lead, isAbsolute, hcs, hc, hcons, hdot] at hlead
  intro q hq
  rw [hcs, hcons, List.head?_cons, Option.mem_some_iff] at hq
  rw [← hq, isIdle, Bool.or_eq_false_iff, beq_eq_false_iff_ne, beq_eq_false_iff_ne]
  exact ⟨List.cons_ne_nil c p, hdot⟩

theorem components_ne_nil {path : String} (hpath : path ≠ "") : components path ≠ [] := by
  intro h
  rw [components_eq, List.append_eq_nil_iff] at h
  have hidle := isIdle_head_split hpath h.1
  obtain ⟨p, ps, hp⟩ := List.exists_cons_of_ne_nil (Text.split_ne_nil '/' path.toList)
  rw [hp] at hidle
  rw [steps, hp, stepsOf_cons_of_not_idle (hidle p rfl)] at h
  exact absurd h.2 (by simp)

theorem components_toText (path : String) {kept : List (List Char)}
    (h : kept <+: (parts path).rest) :
    components ({ parts path with rest := kept } : Parts).toText = lead path ++ stepsOf kept := by
  have hslash : ∀ p ∈ kept, '/' ∉ p := fun p hp => notMem_of_mem_parts (h.subset hp)
  have hsteps := steps_joinWith hslash
  cases habs : isAbsolute path with
  | true =>
    obtain ⟨cs, hcs⟩ := toList_of_absolute habs
    rw [parts_of_absolute hcs]
    have htext : ("/" ++ Text.joinWith "/" (kept.map String.ofList)).toList =
        '/' :: (Text.joinWith "/" (kept.map String.ofList)).toList := by
      simp
    simp only [Parts.toText, Bool.false_eq_true, if_false, if_true, List.nil_append]
    rw [components_eq, lead, lead, isAbsolute, htext, List.head?_cons, habs, steps,
      htext, split, if_pos rfl, stepsOf_cons_idle isIdle_nil, ← hsteps, steps]
    rfl
  | false =>
    by_cases hdot : (split '/' path.toList).head? = some ['.']
    · obtain ⟨rest, hrest⟩ := List.head?_eq_some_iff.mp hdot
      rw [parts_of_dotted habs hrest]
      have hall : ∀ p ∈ ['.'] :: kept, '/' ∉ p := by
        intro p hp
        rcases List.mem_cons.mp hp with rfl | hp
        · decide
        · exact hslash p hp
      have hsplit := Text.split_joinWith (List.cons_ne_nil _ _) hall
      have hfront : Text.joinWith "/" ((['.'] :: kept).map String.ofList) =
          Text.joinWith "/" ("." :: kept.map String.ofList) := by rfl
      rw [hfront] at hsplit
      simp only [Parts.toText, Bool.false_eq_true, if_false, if_true, List.singleton_append]
      rw [components_eq, lead, lead, isAbsolute_of_split hsplit (by simp), hsplit, habs, hrest,
        steps, hsplit, stepsOf_cons_idle rfl]
      rfl
    · have hlead : lead path = [] := by rw [lead, habs, if_neg Bool.false_ne_true, if_neg hdot]
      rw [parts_of_plain habs hdot] at h ⊢
      simp only [Parts.toText, Bool.false_eq_true, if_false, List.nil_append]
      by_cases hpath : path = ""
      · subst hpath
        rcases List.prefix_cons_iff.mp h with rfl | ⟨rest, rfl, hrest⟩
        · decide
        · obtain rfl := List.prefix_nil.mp hrest
          decide
      · have hidle : ∀ p ∈ kept.head?, isIdle p = false := by
          intro p hp
          obtain ⟨rest, rfl⟩ := List.head?_eq_some_iff.mp hp
          obtain ⟨back, hback⟩ := h
          refine isIdle_head_split hpath hlead p ?_
          rw [← show (p :: rest) ++ back = split '/' path.toList from hback]
          rfl
        rw [components_eq, lead_joinWith hslash hidle, hsteps, hlead]

theorem components_toText_dropIdleEnd (path : String) :
    components ({ parts path with rest := dropIdleEnd (parts path).rest } : Parts).toText =
      components path := by
  rw [components_toText path (dropIdleEnd_isPrefix _), stepsOf_dropIdleEnd, (parts_spec path).2,
    components_eq]

theorem components_parent? {path parent : String} (h : parent? path = some parent) :
    components parent = (components path).dropLast := by
  rw [parent?] at h
  split at h
  · rename_i last before hbefore
    obtain rfl := Option.some.inj h
    have hlast : isIdle last = false := by
      have hhead := List.head?_dropWhile_not isIdle (parts path).rest.reverse
      rw [hbefore] at hhead
      simpa using hhead
    have hkept : dropIdleEnd (parts path).rest = before.reverse ++ [last] := by
      rw [dropIdleEnd, hbefore, List.reverse_cons]
    have hprefix : dropIdleEnd before.reverse <+: (parts path).rest := by
      have hfront : before.reverse <+: dropIdleEnd (parts path).rest :=
        hkept ▸ List.prefix_append _ _
      exact ((dropIdleEnd_isPrefix _).trans hfront).trans (dropIdleEnd_isPrefix _)
    rw [components_toText path hprefix, stepsOf_dropIdleEnd, components_eq path,
      ← (parts_spec path).2, ← stepsOf_dropIdleEnd (parts path).rest, hkept, stepsOf_append,
      stepsOf_cons_of_not_idle hlast, ← List.append_assoc]
    exact (List.dropLast_concat).symm
  · rename_i hidle
    split_ifs at h
    obtain rfl := Option.some.inj h
    have hsteps : steps path = [] := by
      rw [← (parts_spec path).2, ← stepsOf_dropIdleEnd, dropIdleEnd, hidle]
      rfl
    rw [components_eq path, hsteps, List.append_nil, lead]
    split_ifs <;> decide

/-- **What is left of a path behind a base** has the components behind those of the base. -/
theorem components_stripBase? {path base : String}
    (h : components base <+: components path) :
    ∃ s, stripBase? path base = some s ∧ components path = components base ++ components s ∧
      (base ≠ "" → isAbsolute s = false ∧ lead s = []) := by
  have hstarts : (components base).isPrefixOf (components path) = true := by simpa using h
  rw [stripBase?, if_pos hstarts]
  cases hn : (components base).length with
  | zero =>
    have hnil : components base = [] := List.length_eq_zero_iff.mp hn
    refine ⟨_, rfl, ?_, fun hbase => absurd hnil (components_ne_nil hbase)⟩
    rw [hnil, List.nil_append, components_toText_dropIdleEnd]
  | succ n =>
    simp only
    generalize hbehind :
      (if (parts path).absolute || (parts path).dotted then n else n + 1) = behind
    generalize hkept : dropIdleEnd (dropComponents behind (parts path).rest) = kept
    have hslash : ∀ p ∈ kept, '/' ∉ p := by
      rw [← hkept]
      exact fun p hp => notMem_of_mem_parts
        ((dropComponents_suffix _ _).subset ((dropIdleEnd_isPrefix _).subset hp))
    have hidle : ∀ p ∈ kept.head?, isIdle p = false := by
      rw [← hkept]
      exact fun p hp => head?_dropComponents _ _ p (mem_head?_dropIdleEnd hp)
    have hlead := lead_joinWith hslash hidle
    have hsteps : steps (Text.joinWith "/" (kept.map String.ofList)) =
        (steps path).drop behind := by
      rw [steps_joinWith hslash, ← hkept, stepsOf_dropIdleEnd, stepsOf_dropComponents,
        (parts_spec path).2]
    have hdrop : (components path).drop (n + 1) = (steps path).drop behind := by
      rw [components_eq, ← (parts_spec path).1, Parts.lead, ← hbehind]
      cases (parts path).absolute
      · cases (parts path).dotted <;> rfl
      · rfl
    refine ⟨_, rfl, ?_, fun _ => ⟨?_, hlead⟩⟩
    · rw [components_eq (Text.joinWith "/" _), hlead, List.nil_append, hsteps, ← hdrop, ← hn]
      exact (List.prefix_iff_eq_append.mp h).symm
    · cases habs : isAbsolute (Text.joinWith "/" (kept.map String.ofList)) with
      | false => rfl
      | true =>
        rw [lead, if_pos habs] at hlead
        exact absurd hlead (by simp)

/-! ## File names -/

/-- The part of a path behind its last slash, idle or not. -/
def lastPart (path : String) : List Char :=
  (split '/' path.toList).getLastD []

theorem lastPart_ofList {part : List Char} (h : '/' ∉ part) :
    lastPart (String.ofList part) = part := by
  rw [lastPart, String.toList_ofList, Text.split_of_notMem h, List.getLastD_cons, List.getLastD_nil]

theorem exists_split_append (path : String) :
    ∃ front, ∀ tail, '/' ∉ tail →
      split '/' (path.toList ++ tail) = front ++ [lastPart path ++ tail] := by
  obtain ⟨front, last, hsplit⟩ := Text.split_append_of_notMem '/' path.toList
  have hself := hsplit [] List.not_mem_nil
  rw [List.append_nil, List.append_nil] at hself
  refine ⟨front, ?_⟩
  rw [lastPart, hself, List.getLastD_concat]
  exact hsplit

theorem notMem_lastPart (path : String) : '/' ∉ lastPart path := by
  obtain ⟨front, hsplit⟩ := exists_split_append path
  have hself := hsplit [] List.not_mem_nil
  rw [List.append_nil, List.append_nil] at hself
  exact Text.notMem_of_mem_split (hself ▸ List.mem_append_right front List.mem_cons_self)

theorem lastPart_append (path : String) {tail : String} (h : '/' ∉ tail.toList) :
    lastPart (path ++ tail) = lastPart path ++ tail.toList := by
  obtain ⟨front, hsplit⟩ := exists_split_append path
  rw [lastPart, String.toList_append, hsplit _ h, List.getLastD_concat]

theorem fileName?_eq_lastPart {path : String} (h : IsName (String.ofList (lastPart path))) :
    fileName? path = some (String.ofList (lastPart path)) := by
  obtain ⟨front, hsplit⟩ := exists_split_append path
  have hself := hsplit [] List.not_mem_nil
  rw [List.append_nil, List.append_nil] at hself
  have hidle : isIdle (lastPart path) = false := by simpa using h.1
  have hup : lastPart path ≠ ['.', '.'] := by simpa using h.2.1
  have hcomponents : components path =
      lead path ++ stepsOf front ++ [.name (String.ofList (lastPart path))] := by
    rw [components_eq, steps, hself, stepsOf_append, stepsOf_cons_of_not_idle hidle, componentOf,
      if_neg hup, List.append_assoc]
    rfl
  rw [fileName?, hcomponents, List.getLast?_concat]

end Path

end BuildPlan
