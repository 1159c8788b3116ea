import BuildPlan.Proofs.Lines
import BuildPlan.Proofs.ManifestReader
import BuildPlan.Proofs.Path

/-!
# Manifests are read back

The text of a manifest says what the manifest was built from (`read_render`): an escaped path is
read as one word up to the space, the colon or the end of the line behind it (`tokens_word`), so a
`build` line falls into its parts again (`edgeOf?_tokens`); and a block of lines says the same
whatever follows it (`Says`), since bindings only wait for the line of their statement
(`says_statement`).
-/

namespace BuildPlan.Ninja

/-! ## What can be read back -/

/-- A path can be read back: nothing escapes a line feed or a bar. -/
def PathSource.Clean : PathSource → Prop
  | .literal path => path ≠ "" ∧ '\n' ∉ path.toList ∧ '|' ∉ path.toList
  | .below var path =>
    isIdentifier var.toList = true ∧ path ≠ "" ∧ '\n' ∉ path.toList ∧ '|' ∉ path.toList

instance : DecidablePred PathSource.Clean
  | .literal _ => inferInstanceAs (Decidable (_ ∧ _ ∧ _))
  | .below _ _ => inferInstanceAs (Decidable (_ ∧ _ ∧ _ ∧ _))

/-- A name and its value can be read back. -/
def CleanField (f : String × String) : Prop :=
  isDeclarable f.1.toList = true ∧ '\n' ∉ f.2.toList

instance : DecidablePred CleanField :=
  fun _ => inferInstanceAs (Decidable (_ ∧ _))

def Rule.fields (r : Rule) : List (String × String) :=
  [("command", r.command)] ++ (r.description.map ("description", ·)).toList ++
    (r.deps.map ("deps", ·)).toList ++ (r.depfile.map ("depfile", ·)).toList ++
    (if r.generator then [("generator", "1")] else []) ++ if r.restat then [("restat", "1")] else []

def Rule.Clean (r : Rule) : Prop :=
  isDeclarable r.name.toList = true ∧ ∀ f ∈ r.fields, '\n' ∉ f.2.toList

instance : DecidablePred Rule.Clean :=
  fun _ => inferInstanceAs (Decidable (_ ∧ _))

def SourceEdge.paths (e : SourceEdge) : List PathSource :=
  e.outputs ++ e.inputs ++ e.implicit ++ e.orderOnly

def SourceEdge.Clean (e : SourceEdge) : Prop :=
  isDeclarable e.rule.toList = true ∧ (∀ s ∈ e.paths, s.Clean) ∧ ∀ f ∈ e.bindings, CleanField f

instance : DecidablePred SourceEdge.Clean :=
  fun _ => inferInstanceAs (Decidable (_ ∧ _ ∧ _))

/-- A document can be read back. -/
structure Document.Clean (d : Document) : Prop where
  vars : ∀ f ∈ d.vars, CleanField f
  rules : ∀ r ∈ d.rules, r.Clean
  edges : ∀ e ∈ d.edges, e.Clean
  defaults : ∀ s ∈ d.defaults, s.Clean

/-! ## Names -/

theorem isIdentifier_of_isDeclarable {cs : List Char} (h : isDeclarable cs = true) :
    isIdentifier cs = true := by
  rw [isDeclarable, Bool.and_eq_true] at h
  exact h.1

theorem ne_nil_of_isIdentifier {cs : List Char} (h : isIdentifier cs = true) : cs ≠ [] := by
  rintro rfl
  cases h

theorem notMem_of_isIdentifier {cs : List Char} (h : isIdentifier cs = true) (c : Char)
    (hc : isNameChar c = false) : c ∉ cs := by
  intro hmem
  rw [isIdentifier, Bool.and_eq_true, List.all_eq_true] at h
  rw [h.2 c hmem] at hc
  cases hc

theorem ne_keyword_of_isDeclarable {cs : List Char} (h : isDeclarable cs = true) (keyword : String)
    (hkeyword : keyword ∈ keywords) : cs ≠ keyword.toList := by
  rintro rfl
  rw [isDeclarable, Bool.and_eq_true, String.ofList_toList] at h
  simp [hkeyword] at h

theorem isSpecial_eq_false_iff {c : Char} :
    isSpecial c = false ↔ c ≠ '$' ∧ c ≠ ' ' ∧ c ≠ ':' := by
  simp [isSpecial, and_assoc]

theorem plain_of_isIdentifier {cs : List Char} (h : isIdentifier cs = true) :
    ∀ c ∈ cs, isSpecial c = false ∧ c ≠ '|' := by
  intro c hc
  have hnot : ∀ d : Char, isNameChar d = false → c ≠ d :=
    fun d hd hcd => notMem_of_isIdentifier h d hd (hcd ▸ hc)
  refine ⟨isSpecial_eq_false_iff.mpr ⟨?_, ?_, ?_⟩, ?_⟩ <;> exact hnot _ (by decide)

/-! ## Words -/

/-- A text is read as part of a word, whatever is behind it. -/
def Scans (cs : List Char) (glyphs : List Glyph) : Prop :=
  ∀ rest, scan (cs ++ rest) = (glyphs ++ (scan rest).1, (scan rest).2)

theorem Scans.append {cs ds : List Char} {glyphs others : List Glyph} (h : Scans cs glyphs)
    (h' : Scans ds others) : Scans (cs ++ ds) (glyphs ++ others) := by
  intro rest
  rw [List.append_assoc, h, h', List.append_assoc]

theorem scans_nil : Scans [] [] := fun _ => rfl

theorem scan_special {c : Char} (h : isSpecial c = true) (rest : List Char) :
    scan ('$' :: c :: rest) = (.char c :: (scan rest).1, (scan rest).2) := by
  have hchar : (c = '$' ∨ c = ' ') ∨ c = ':' := by simpa [isSpecial] using h
  rcases hchar with (rfl | rfl) | rfl <;> rfl

theorem scan_reference {c : Char} (h : isSpecial c = false) (rest : List Char) :
    scan ('$' :: c :: rest) = (.reference :: (scan (c :: rest)).1, (scan (c :: rest)).2) := by
  have hchars := isSpecial_eq_false_iff.mp h
  rw [scan] <;> simp [hchars]

theorem scan_plain {c : Char} (h : isSpecial c = false) (hbar : c ≠ '|') (rest : List Char) :
    scan (c :: rest) = (.char c :: (scan rest).1, (scan rest).2) := by
  have hchars := isSpecial_eq_false_iff.mp h
  rw [scan] <;> simp [hchars, hbar]

theorem scans_plain {cs : List Char} (h : ∀ c ∈ cs, isSpecial c = false ∧ c ≠ '|') :
    Scans cs (cs.map .char) := by
  induction cs with
  | nil => exact scans_nil
  | cons c cs ih =>
    obtain ⟨⟨hspecial, hbar⟩, hcs⟩ := List.forall_mem_cons.mp h
    intro rest
    rw [List.cons_append, scan_plain hspecial hbar, ih hcs, List.map_cons, List.cons_append]

/-- **An escaped text is one word.** -/
theorem scans_escape {path : String} (h : '|' ∉ path.toList) :
    Scans (escape path).toList (path.toList.map .char) := by
  rw [escape, String.toList_ofList]
  generalize path.toList = cs at h
  induction cs with
  | nil => exact scans_nil
  | cons c cs ih =>
    have hbar : c ≠ '|' := fun hc => h (hc ▸ List.mem_cons_self)
    have hrest := ih fun hmem => h (List.mem_cons_of_mem c hmem)
    intro rest
    rw [List.flatMap_cons, List.append_assoc, List.map_cons, List.cons_append]
    cases hspecial : isSpecial c with
    | true =>
      rw [if_pos rfl, List.cons_append, List.cons_append, List.nil_append, scan_special hspecial,
        hrest]
    | false =>
      rw [if_neg Bool.false_ne_true, List.cons_append, List.nil_append, scan_plain hspecial hbar,
        hrest]

def PathSource.glyphs : PathSource → List Glyph
  | literal path => path.toList.map .char
  | below var path => .reference :: (var.toList ++ '/' :: path.toList).map .char

theorem scans_escaped {s : PathSource} (h : s.Clean) : Scans s.escaped.text.toList s.glyphs := by
  cases s with
  | literal path => exact scans_escape h.2.2
  | below var path =>
    obtain ⟨hvar, -, -, hbar⟩ := h
    have hplain := plain_of_isIdentifier hvar
    have hslash : ∀ c ∈ ['/'], isSpecial c = false ∧ c ≠ '|' :=
      List.forall_mem_singleton.mpr (by decide)
    obtain ⟨c, cs, hcs⟩ := List.exists_cons_of_ne_nil (ne_nil_of_isIdentifier hvar)
    have hword : Scans (var.toList ++ '/' :: (escape path).toList)
        ((var.toList ++ '/' :: path.toList).map .char) := by
      rw [List.map_append]
      refine (scans_plain hplain).append ?_
      exact (scans_plain hslash).append (scans_escape hbar)
    have htext : (PathSource.below var path).escaped.text.toList =
        '$' :: (var.toList ++ '/' :: (escape path).toList) := by
      simp [PathSource.escaped, EscapedPath.below]
    intro rest
    have hrest := hword rest
    rw [hcs] at hplain hrest
    rw [htext, PathSource.glyphs, hcs, List.cons_append, List.cons_append, List.cons_append,
      scan_reference (hplain c List.mem_cons_self).1, ← List.cons_append, ← List.cons_append, hrest]
    rfl

/-! ## Tokens -/

theorem tokens_of_scan {cs : List Char} {ts : List Token} (h : scan cs = ([], ts)) :
    tokens cs = ts := by
  rw [tokens, h, close, if_pos rfl]

theorem tokens_word {cs rest : List Char} {glyphs : List Glyph} {ts : List Token}
    (h : Scans cs glyphs) (hne : glyphs ≠ []) (hrest : scan rest = ([], ts)) :
    tokens (cs ++ rest) = .path glyphs :: ts := by
  rw [tokens, h, hrest, List.append_nil, close, if_neg hne]

theorem glyphs_ne_nil {s : PathSource} (h : s.Clean) : s.glyphs ≠ [] := by
  cases s with
  | literal path =>
    have hne : path.toList ≠ [] := by simpa using h.1
    simpa [PathSource.glyphs] using hne
  | below var path => exact List.cons_ne_nil _ _

/-- **Paths are read one by one**, up to what ends them. -/
theorem tokens_showPaths {ps : List PathSource} (h : ∀ s ∈ ps, s.Clean) {rest : List Char}
    {ts : List Token} (hrest : scan rest = ([], ts)) :
    tokens ((showPaths (ps.map PathSource.escaped)).toList ++ rest) =
      ps.map (.path ·.glyphs) ++ ts := by
  induction ps with
  | nil => exact tokens_of_scan hrest
  | cons s ps ih =>
    obtain ⟨hs, hps⟩ := List.forall_mem_cons.mp h
    cases ps with
    | nil => exact tokens_word (scans_escaped hs) (glyphs_ne_nil hs) hrest
    | cons s' ps =>
      have htext : (showPaths ((s :: s' :: ps).map PathSource.escaped)).toList ++ rest =
          s.escaped.text.toList ++
            ' ' :: ((showPaths ((s' :: ps).map PathSource.escaped)).toList ++ rest) := by
        simp [showPaths, Text.joinWith]
      -- the space in front of the other paths ends the word
      have hspace : scan (' ' :: ((showPaths ((s' :: ps).map PathSource.escaped)).toList ++ rest)) =
          ([], (s' :: ps).map (.path ·.glyphs) ++ ts) := by
        rw [← ih hps]
        rfl
      rw [htext, tokens_word (scans_escaped hs) (glyphs_ne_nil hs) hspace]
      rfl

def groupTokens (front : List Token) (ps : List PathSource) : List Token :=
  if ps = [] then [] else front ++ ps.map (.path ·.glyphs)

theorem scan_group (mark : String) (front : List Token)
    (hmark : ∀ cs, scan (mark.toList ++ cs) = ([], front ++ tokens cs)) {ps : List PathSource}
    (h : ∀ s ∈ ps, s.Clean) {rest : List Char} {ts : List Token} (hrest : scan rest = ([], ts)) :
    scan ((group mark (ps.map PathSource.escaped)).toList ++ rest) =
      ([], groupTokens front ps ++ ts) := by
  rw [group, groupTokens]
  cases ps with
  | nil => exact hrest
  | cons s ps =>
    rw [if_neg (by simp), if_neg (List.cons_ne_nil s ps), String.toList_append, List.append_assoc,
      hmark, tokens_showPaths h hrest, List.append_assoc]

def SourceEdge.tokens (e : SourceEdge) : List Token :=
  e.outputs.map (.path ·.glyphs) ++ .colon :: .path (e.rule.toList.map .char) ::
    (groupTokens [] e.inputs ++ (groupTokens [.pipe] e.implicit ++
      (groupTokens [.doublePipe] e.orderOnly ++ [])))

/-- The text of an edge behind its keyword. -/
def SourceEdge.line (e : SourceEdge) : String :=
  showPaths e.edge.outputs ++ ": " ++ e.rule ++ group " " e.edge.inputs ++
    group " | " e.edge.implicit ++ group " || " e.edge.orderOnly

/-- **A `build` line falls into its parts.** -/
theorem tokens_line {e : SourceEdge} (hrule : isDeclarable e.rule.toList = true)
    (h : ∀ s ∈ e.paths, s.Clean) : Ninja.tokens e.line.toList = e.tokens := by
  have hidentifier := isIdentifier_of_isDeclarable hrule
  simp only [SourceEdge.paths, List.mem_append, or_imp, forall_and] at h
  obtain ⟨⟨⟨houtputs, hinputs⟩, himplicit⟩, horder⟩ := h
  -- from the end of the line to its start
  have hnil : scan [] = ([], []) := rfl
  have horder := scan_group " || " [.doublePipe] (fun _ => rfl) horder hnil
  have himplicit := scan_group " | " [.pipe] (fun _ => rfl) himplicit horder
  have hinputs := scan_group " " [] (fun _ => rfl) hinputs himplicit
  have hword := tokens_word (scans_plain (plain_of_isIdentifier hidentifier))
    (by simpa using ne_nil_of_isIdentifier hidentifier) hinputs
  have hcolon : ∀ {cs ts}, Ninja.tokens cs = ts → scan (':' :: ' ' :: cs) = ([], .colon :: ts) := by
    rintro cs _ rfl
    rfl
  have houtputs := tokens_showPaths houtputs (hcolon hword)
  rw [SourceEdge.tokens, ← houtputs]
  simp [SourceEdge.line, SourceEdge.edge]

-- a dollar sign at the end of a path does not reach the space behind it
example : tokens "a$$ $:b: cc $r/c".toList =
    [.path [.char 'a', .char '$'], .path [.char ':', .char 'b'], .colon,
      .path [.char 'c', .char 'c'], .path [.reference, .char 'r', .char '/', .char 'c']] := by
  decide

/-! ## Edges -/

theorem chars?_map (cs : List Char) : chars? (cs.map .char) = some cs := by
  induction cs with
  | nil => rfl
  | cons c cs ih =>
    rw [chars?, List.map_cons, List.mapM_cons, ← chars?, ih]
    rfl

theorem cut_append {cs : List Char} {c : Char} (h : c ∉ cs) (rest : List Char) :
    (cs ++ c :: rest).takeWhile (· ≠ c) = cs ∧
      (cs ++ c :: rest).dropWhile (· ≠ c) = c :: rest := by
  have hcs : ∀ d ∈ cs, decide (d ≠ c) = true := by
    intro d hd
    have hne : d ≠ c := fun hdc => h (hdc ▸ hd)
    exact decide_eq_true hne
  constructor
  · rw [List.takeWhile_append_of_pos hcs, List.takeWhile_cons_of_neg (by simp), List.append_nil]
  · rw [List.dropWhile_append_of_pos hcs, List.dropWhile_cons_of_neg (by simp)]

/-- **A word gives back what its path was built from.** -/
theorem sourceOf?_glyphs {s : PathSource} (h : s.Clean) : sourceOf? s.glyphs = some s := by
  cases s with
  | literal path =>
    have hne : path.toList ≠ [] := by simpa using h.1
    obtain ⟨c, cs, hcs⟩ := List.exists_cons_of_ne_nil hne
    have hchars := chars?_map path.toList
    rw [hcs, List.map_cons] at hchars
    rw [PathSource.glyphs, hcs, List.map_cons, sourceOf?, hchars, Option.map_some, ← hcs,
      String.ofList_toList]
    exact nofun
  | below var path =>
    have hslash := notMem_of_isIdentifier h.1 '/' (by decide)
    obtain ⟨htake, hdrop⟩ := cut_append hslash path.toList
    rw [PathSource.glyphs, sourceOf?, chars?_map]
    simp only [Option.bind_eq_bind, Option.bind_some, hdrop, htake, h.1, if_true,
      String.ofList_toList]

theorem mapM_sourceOf? {ps : List PathSource} (h : ∀ s ∈ ps, s.Clean) :
    (ps.map PathSource.glyphs).mapM sourceOf? = some ps := by
  induction ps with
  | nil => rfl
  | cons s ps ih =>
    obtain ⟨hs, hps⟩ := List.forall_mem_cons.mp h
    rw [List.map_cons, List.mapM_cons, sourceOf?_glyphs hs, ih hps]
    rfl

theorem pathsFrom_append (ps : List PathSource) {rest : List Token}
    (hrest : pathsFrom rest = ([], rest)) :
    pathsFrom (ps.map (.path ·.glyphs) ++ rest) = (ps.map PathSource.glyphs, rest) := by
  induction ps with
  | nil => exact hrest
  | cons s ps ih =>
    rw [List.map_cons, List.cons_append, pathsFrom, ih]
    rfl

theorem groupTokens_nil (ps : List PathSource) : groupTokens [] ps = ps.map (.path ·.glyphs) := by
  cases ps <;> rfl

theorem pathsFrom_group (mark : Token) (hmark : ∀ ts, pathsFrom (mark :: ts) = ([], mark :: ts))
    (ps : List PathSource) {rest : List Token} (hrest : pathsFrom rest = ([], rest)) :
    pathsFrom (groupTokens [mark] ps ++ rest) = ([], groupTokens [mark] ps ++ rest) := by
  cases ps with
  | nil => exact hrest
  | cons s ps => exact hmark _

theorem pathsBehind_group (mark : Token) (ps : List PathSource) {rest : List Token}
    (hrest : pathsFrom rest = ([], rest)) (hother : rest.head? ≠ some mark) :
    pathsBehind mark (groupTokens [mark] ps ++ rest) = (ps.map PathSource.glyphs, rest) := by
  cases ps with
  | nil =>
    cases rest with
    | nil => rfl
    | cons t rest => exact if_neg fun ht => hother (congrArg some ht)
  | cons s ps => exact (if_pos rfl).trans (pathsFrom_append (s :: ps) hrest)

/-- **An edge is read back from its tokens.** -/
theorem edgeOf?_tokens {e : SourceEdge} (hrule : isDeclarable e.rule.toList = true)
    (h : ∀ s ∈ e.paths, s.Clean) : edgeOf? e.tokens e.bindings = some e := by
  simp only [SourceEdge.paths, List.mem_append, or_imp, forall_and] at h
  obtain ⟨⟨⟨houtputs, hinputs⟩, himplicit⟩, horder⟩ := h
  -- each list of paths ends at the mark of the next one that is there
  have hlast : pathsFrom (groupTokens [.doublePipe] e.orderOnly ++ []) =
      ([], groupTokens [.doublePipe] e.orderOnly ++ []) :=
    pathsFrom_group .doublePipe (fun _ => rfl) e.orderOnly rfl
  have hother : (groupTokens [.doublePipe] e.orderOnly ++ []).head? ≠ some .pipe := by
    cases e.orderOnly <;> exact nofun
  have hcolon : ∀ ts, pathsFrom (.colon :: ts) = ([], .colon :: ts) := fun _ => rfl
  have hnil : pathsFrom [] = ([], []) := rfl
  have hins := pathsFrom_append e.inputs
    (pathsFrom_group .pipe (fun _ => rfl) e.implicit hlast)
  rw [← groupTokens_nil] at hins
  have himp := pathsBehind_group .pipe e.implicit hlast hother
  have hord := pathsBehind_group .doublePipe e.orderOnly hnil nofun
  rw [edgeOf?, SourceEdge.tokens]
  simp only [pathsFrom_append e.outputs (hcolon _), hins, himp, hord, if_true, chars?_map,
    mapM_sourceOf? houtputs, mapM_sourceOf? hinputs, mapM_sourceOf? himplicit,
    mapM_sourceOf? horder, hrule, Option.bind_eq_bind, Option.bind_some, String.ofList_toList]

/-! ## Rules -/

theorem Rule.lines_eq (r : Rule) :
    r.lines = ("rule " ++ r.name) :: r.fields.map fun f => field f.1 f.2 := by
  obtain ⟨name, command, description, deps, depfile, generator, restat⟩ := r
  cases description <;> cases deps <;> cases depfile <;> cases generator <;> cases restat <;> rfl

theorem isName_of_mem_fields {r : Rule} {f : String × String} (hf : f ∈ r.fields) :
    isDeclarable f.1.toList = true := by
  have hall : ∀ name ∈ ["command", "description", "deps", "depfile", "generator", "restat"],
      isDeclarable name.toList = true := by decide
  simp only [Rule.fields, List.mem_append, List.mem_singleton, Option.mem_toList,
    Option.map_eq_some_iff, List.mem_ite_nil_right] at hf
  refine hall f.1 ?_
  obtain ((((rfl | ⟨_, -, rfl⟩) | ⟨_, -, rfl⟩) | ⟨_, -, rfl⟩) | ⟨-, rfl⟩) | ⟨-, rfl⟩ := hf <;> simp

/-- **A rule is read back from its bindings.** -/
theorem ruleOf?_fields {r : Rule} (h : isDeclarable r.name.toList = true) :
    ruleOf? r.name.toList r.fields = some r := by
  obtain ⟨name, command, description, deps, depfile, generator, restat⟩ := r
  rw [ruleOf?, if_pos h, String.ofList_toList]
  cases description <;> cases deps <;> cases depfile <;> cases generator <;> cases restat <;> rfl

/-! ## Lines -/

theorem readField_append {name : String} (value : String) (h : isDeclarable name.toList = true) :
    readField (name ++ " = " ++ value).toList = some (name, value) := by
  have hspace := notMem_of_isIdentifier (isIdentifier_of_isDeclarable h) ' ' (by decide)
  obtain ⟨htake, hdrop⟩ := cut_append hspace ('=' :: ' ' :: value.toList)
  have htext : (name ++ " = " ++ value).toList =
      name.toList ++ ' ' :: '=' :: ' ' :: value.toList := by simp
  rw [htext, readField, htake, hdrop, if_pos h, String.ofList_toList]
  simp [Text.stripStart?]

theorem readLine_blank (d : Document) : readLine [] ⟨[], d⟩ = some ⟨[], d⟩ := rfl

theorem readLine_comment (text : String) (d : Document) :
    readLine ("# " ++ text).toList ⟨[], d⟩ = some ⟨[], d⟩ := by
  rw [String.toList_append]
  rfl

theorem readLine_field {name : String} (value : String) (h : isDeclarable name.toList = true)
    (r : Reading) :
    readLine (field name value).toList r = some { r with fields := (name, value) :: r.fields } := by
  have htext : (field name value).toList = ' ' :: ' ' :: (name ++ " = " ++ value).toList := by
    simp [field]
  have hread : readLine (' ' :: ' ' :: (name ++ " = " ++ value).toList) r =
      (readField (name ++ " = " ++ value).toList).bind fun f =>
        some { r with fields := f :: r.fields } := rfl
  rw [htext, hread, readField_append value h, Option.bind_some]

theorem readLine_rule {rule : Rule} (h : isDeclarable rule.name.toList = true) (d : Document) :
    readLine ("rule " ++ rule.name).toList ⟨rule.fields, d⟩ =
      some ⟨[], { d with rules := rule :: d.rules }⟩ := by
  have hread : ∀ cs fields, readLine ("rule ".toList ++ cs) ⟨fields, d⟩ =
      (ruleOf? cs fields).bind fun rule => some ⟨[], { d with rules := rule :: d.rules }⟩ :=
    fun _ _ => rfl
  rw [String.toList_append, hread, ruleOf?_fields h, Option.bind_some]

theorem readLine_edge {e : SourceEdge} (hrule : isDeclarable e.rule.toList = true)
    (h : ∀ s ∈ e.paths, s.Clean) (d : Document) :
    readLine ("build " ++ e.line).toList ⟨e.bindings, d⟩ =
      some ⟨[], { d with edges := e :: d.edges }⟩ := by
  have hread : ∀ cs fields, readLine ("build ".toList ++ cs) ⟨fields, d⟩ =
      (edgeOf? (tokens cs) fields).bind fun e => some ⟨[], { d with edges := e :: d.edges }⟩ :=
    fun _ _ => rfl
  rw [String.toList_append, hread, tokens_line hrule h, edgeOf?_tokens hrule h, Option.bind_some]

theorem readLine_default {ps : List PathSource} (h : ∀ s ∈ ps, s.Clean) (d : Document) :
    readLine ("default " ++ showPaths (ps.map PathSource.escaped)).toList ⟨[], d⟩ =
      some ⟨[], { d with defaults := ps ++ d.defaults }⟩ := by
  have hnil : scan [] = ([], []) := rfl
  have hpaths := tokens_showPaths h hnil
  have hnone : pathsFrom [] = ([], []) := rfl
  have hall := pathsFrom_append ps hnone
  have hread : ∀ cs, readLine ("default ".toList ++ cs) ⟨[], d⟩ =
      if (pathsFrom (tokens cs)).2 = [] then
        ((pathsFrom (tokens cs)).1.mapM sourceOf?).bind fun defaults =>
          some ⟨[], { d with defaults := defaults ++ d.defaults }⟩
      else none := fun _ => rfl
  rw [List.append_nil] at hpaths
  rw [String.toList_append, hread, hpaths, hall, if_pos rfl, mapM_sourceOf? h, Option.bind_some]

theorem readLine_var {name : String} (value : String) (h : isDeclarable name.toList = true)
    (d : Document) :
    readLine (name ++ " = " ++ value).toList ⟨[], d⟩ =
      some ⟨[], { d with vars := (name, value) :: d.vars }⟩ := by
  have hidentifier := isIdentifier_of_isDeclarable h
  have hne := ne_nil_of_isIdentifier hidentifier
  have hspace := notMem_of_isIdentifier hidentifier ' ' (by decide)
  have hhash := notMem_of_isIdentifier hidentifier '#' (by decide)
  have htext : (name ++ " = " ++ value).toList =
      name.toList ++ ' ' :: '=' :: ' ' :: value.toList := by simp
  have hcomment : ¬ ((name ++ " = " ++ value).toList = [] ∨
      (name ++ " = " ++ value).toList.head? = some '#') := by
    obtain ⟨c, cs, hcs⟩ := List.exists_cons_of_ne_nil hne
    rw [htext, hcs, List.cons_append]
    rintro (hnil | hhead)
    · cases hnil
    · exact hhash (hcs ▸ Option.some.inj hhead ▸ List.mem_cons_self)
  have hword : (name ++ " = " ++ value).toList.takeWhile (· ≠ ' ') = name.toList := by
    rw [htext, (cut_append hspace _).1]
  have hrule : name.toList ≠ ['r', 'u', 'l', 'e'] := ne_keyword_of_isDeclarable h "rule" (by decide)
  have hbuild : name.toList ≠ ['b', 'u', 'i', 'l', 'd'] :=
    ne_keyword_of_isDeclarable h "build" (by decide)
  have hdefault : name.toList ≠ ['d', 'e', 'f', 'a', 'u', 'l', 't'] :=
    ne_keyword_of_isDeclarable h "default" (by decide)
  -- no keyword is a name, so the line is not taken for a statement
  rw [readLine, if_neg hcomment, hword, if_neg hne, if_neg hrule, if_neg hbuild, if_neg hdefault,
    readField_append value h]
  rfl

/-! ## Line feeds -/

theorem newline_notMem_append {s t : String} :
    '\n' ∉ (s ++ t).toList ↔ '\n' ∉ s.toList ∧ '\n' ∉ t.toList := by
  rw [String.toList_append, List.mem_append, not_or]

theorem newline_notMem_of_isDeclarable {name : String} (h : isDeclarable name.toList = true) :
    '\n' ∉ name.toList :=
  notMem_of_isIdentifier (isIdentifier_of_isDeclarable h) '\n' (by decide)

theorem newline_notMem_escape {path : String} (h : '\n' ∉ path.toList) :
    '\n' ∉ (escape path).toList := by
  rw [escape, String.toList_ofList, List.mem_flatMap]
  rintro ⟨c, hc, hmem⟩
  have hcn : c ≠ '\n' := fun hcn => h (hcn ▸ hc)
  split_ifs at hmem <;> simp [hcn.symm] at hmem

theorem newline_notMem_escaped {s : PathSource} (h : s.Clean) : '\n' ∉ s.escaped.text.toList := by
  cases s with
  | literal path => exact newline_notMem_escape h.2.1
  | below var path =>
    obtain ⟨hvar, -, hpath, -⟩ := h
    simp only [PathSource.escaped, EscapedPath.below, newline_notMem_append]
    exact ⟨⟨⟨by decide, notMem_of_isIdentifier hvar '\n' (by decide)⟩, by decide⟩,
      newline_notMem_escape hpath⟩

theorem newline_notMem_showPaths {ps : List PathSource} (h : ∀ s ∈ ps, s.Clean) :
    '\n' ∉ (showPaths (ps.map PathSource.escaped)).toList := by
  refine Text.newline_notMem_joinWith ?_
  simp only [List.forall_mem_map]
  exact fun s hs => newline_notMem_escaped (h s hs)

theorem newline_notMem_group {mark : String} (hmark : '\n' ∉ mark.toList) {ps : List PathSource}
    (h : ∀ s ∈ ps, s.Clean) : '\n' ∉ (group mark (ps.map PathSource.escaped)).toList := by
  rw [group]
  split_ifs
  · exact List.not_mem_nil
  · exact newline_notMem_append.mpr ⟨hmark, newline_notMem_showPaths h⟩

theorem newline_notMem_line {e : SourceEdge} (h : e.Clean) : '\n' ∉ e.line.toList := by
  obtain ⟨hrule, hpaths, -⟩ := h
  simp only [SourceEdge.paths, List.mem_append, or_imp, forall_and] at hpaths
  obtain ⟨⟨⟨houtputs, hinputs⟩, himplicit⟩, horder⟩ := hpaths
  simp only [SourceEdge.line, SourceEdge.edge, newline_notMem_append]
  exact ⟨⟨⟨⟨⟨newline_notMem_showPaths houtputs, by decide⟩, newline_notMem_of_isDeclarable hrule⟩,
    newline_notMem_group (by decide) hinputs⟩, newline_notMem_group (by decide) himplicit⟩,
    newline_notMem_group (by decide) horder⟩

theorem newline_notMem_field {f : String × String} (h : CleanField f) :
    '\n' ∉ (field f.1 f.2).toList := by
  simp only [field, newline_notMem_append]
  exact ⟨⟨⟨by decide, newline_notMem_of_isDeclarable h.1⟩, by decide⟩, h.2⟩

/-! ## Blocks of lines -/

/-- What lines add to whatever is said behind them. -/
structure Says (lines : List String) (add : Document → Document) : Prop where
  newline_notMem : ∀ line ∈ lines, '\n' ∉ line.toList
  readLines_append : ∀ rest d, readLines rest = some ⟨[], d⟩ →
    readLines (lines.map String.toList ++ rest) = some ⟨[], add d⟩

theorem says_nil : Says [] id where
  newline_notMem := List.forall_mem_nil _
  readLines_append _ _ h := h

theorem Says.append {lines lines' : List String} {add add' : Document → Document}
    (h : Says lines add) (h' : Says lines' add') : Says (lines ++ lines') (add ∘ add') where
  newline_notMem := List.forall_mem_append.mpr ⟨h.newline_notMem, h'.newline_notMem⟩
  readLines_append rest d hrest := by
    rw [List.map_append, List.append_assoc]
    exact h.readLines_append _ _ (h'.readLines_append _ _ hrest)

theorem says_flatMap {α : Type} {linesOf : α → List String} (add : List α → Document → Document)
    (hnil : add [] = id) (hcons : ∀ x xs, add (x :: xs) = add [x] ∘ add xs) {xs : List α}
    (h : ∀ x ∈ xs, Says (linesOf x) (add [x])) : Says (xs.flatMap linesOf) (add xs) := by
  induction xs with
  | nil =>
    rw [hnil]
    exact says_nil
  | cons x xs ih =>
    obtain ⟨hx, hxs⟩ := List.forall_mem_cons.mp h
    rw [hcons]
    exact hx.append (ih hxs)

theorem says_line {line : String} {add : Document → Document} (hline : '\n' ∉ line.toList)
    (h : ∀ d, readLine line.toList ⟨[], d⟩ = some ⟨[], add d⟩) : Says [line] add where
  newline_notMem := List.forall_mem_singleton.mpr hline
  readLines_append rest d hrest := by
    rw [List.map_singleton, List.singleton_append, readLines, hrest, Option.bind_some, h]

theorem says_blank : Says [""] id :=
  says_line (by decide) readLine_blank

theorem Says.block {lines : List String} {add : Document → Document} (h : Says lines add) :
    Says (block lines) add := by
  rw [Ninja.block]
  split_ifs with hempty
  · rwa [List.isEmpty_iff.mp hempty] at h
  · exact h.append says_blank

theorem readLines_fields {fields : List (String × String)} (h : ∀ f ∈ fields, CleanField f)
    {rest : List (List Char)} {d : Document} (hrest : readLines rest = some ⟨[], d⟩) :
    readLines ((fields.map fun f => field f.1 f.2).map String.toList ++ rest) =
      some ⟨fields, d⟩ := by
  induction fields with
  | nil => exact hrest
  | cons f fields ih =>
    obtain ⟨hf, hfields⟩ := List.forall_mem_cons.mp h
    rw [List.map_cons, List.map_cons, List.cons_append, readLines, ih hfields, Option.bind_some,
      readLine_field f.2 hf.1]

theorem says_statement {line : String} {fields : List (String × String)}
    {add : Document → Document} (hline : '\n' ∉ line.toList)
    (hfields : ∀ f ∈ fields, CleanField f)
    (h : ∀ d, readLine line.toList ⟨fields, d⟩ = some ⟨[], add d⟩) :
    Says (line :: fields.map fun f => field f.1 f.2) add where
  newline_notMem := by
    refine List.forall_mem_cons.mpr ⟨hline, ?_⟩
    simp only [List.forall_mem_map]
    exact fun f hf => newline_notMem_field (hfields f hf)
  readLines_append rest d hrest := by
    rw [List.map_cons, List.cons_append, readLines, readLines_fields hfields hrest,
      Option.bind_some, h]

/-! ## The parts of a manifest -/

def addVars (vars : List (String × String)) (d : Document) : Document :=
  { d with vars := vars ++ d.vars }

def addRules (rules : List Rule) (d : Document) : Document :=
  { d with rules := rules ++ d.rules }

def addEdges (edges : List SourceEdge) (d : Document) : Document :=
  { d with edges := edges ++ d.edges }

def addDefaults (defaults : List PathSource) (d : Document) : Document :=
  { d with defaults := defaults ++ d.defaults }

theorem says_comments {comments : List String} (h : ∀ text ∈ comments, '\n' ∉ text.toList) :
    Says (comments.map ("# " ++ ·)) id := by
  rw [List.map_eq_flatMap]
  refine says_flatMap (fun _ => id) rfl (fun _ _ => rfl) fun text htext => ?_
  refine says_line ?_ (readLine_comment text)
  exact newline_notMem_append.mpr ⟨by decide, h text htext⟩

theorem says_vars {vars : List (String × String)} (h : ∀ f ∈ vars, CleanField f) :
    Says (vars.map fun f => f.1 ++ " = " ++ f.2) (addVars vars) := by
  rw [List.map_eq_flatMap]
  refine says_flatMap addVars rfl (fun _ _ => rfl) fun f hf => ?_
  obtain ⟨hname, hvalue⟩ := h f hf
  refine says_line ?_ (readLine_var f.2 hname)
  simp only [newline_notMem_append]
  exact ⟨⟨newline_notMem_of_isDeclarable hname, by decide⟩, hvalue⟩

theorem says_rules {rules : List Rule} (h : ∀ r ∈ rules, r.Clean) :
    Says (rules.flatMap fun r => block r.lines) (addRules rules) := by
  refine says_flatMap addRules rfl (fun _ _ => rfl) fun r hr => ?_
  obtain ⟨hname, hvalues⟩ := h r hr
  rw [Rule.lines_eq]
  refine (says_statement ?_ (fun f hf => ⟨isName_of_mem_fields hf, hvalues f hf⟩)
    (readLine_rule hname)).block
  exact newline_notMem_append.mpr ⟨by decide, newline_notMem_of_isDeclarable hname⟩

theorem SourceEdge.lines_eq (e : SourceEdge) :
    e.edge.lines = ("build " ++ e.line) :: e.bindings.map fun f => field f.1 f.2 := by
  simp only [Edge.lines, SourceEdge.line, String.append_assoc]
  rfl

theorem says_edges {edges : List SourceEdge} (h : ∀ e ∈ edges, e.Clean) :
    Says ((edges.map SourceEdge.edge).flatMap Edge.lines) (addEdges edges) := by
  rw [List.flatMap_map]
  refine says_flatMap addEdges rfl (fun _ _ => rfl) fun e he => ?_
  obtain ⟨hrule, hpaths, hbindings⟩ := h e he
  rw [SourceEdge.lines_eq]
  refine says_statement ?_ hbindings (readLine_edge hrule hpaths)
  exact newline_notMem_append.mpr ⟨by decide, newline_notMem_line (h e he)⟩

theorem says_defaults {defaults : List PathSource} (h : ∀ s ∈ defaults, s.Clean) :
    Says (if (defaults.map PathSource.escaped).isEmpty then []
      else ["", "default " ++ showPaths (defaults.map PathSource.escaped)])
      (addDefaults defaults) := by
  split_ifs with hempty
  · rw [List.isEmpty_iff, List.map_eq_nil_iff] at hempty
    rw [hempty]
    exact says_nil
  · refine says_blank.append (says_line ?_ (readLine_default h))
    exact newline_notMem_append.mpr ⟨by decide, newline_notMem_showPaths h⟩

/-- **Rendering can be read back.** -/
theorem Document.read_render {d : Document} (hd : d.Clean) {comments : List String}
    (hcomments : ∀ text ∈ comments, '\n' ∉ text.toList) :
    Document.read? (d.manifest comments).render = some d := by
  have hsays := ((((says_comments hcomments).block.append (says_vars hd.vars).block).append
    (says_rules hd.rules)).append (says_edges hd.edges)).append (says_defaults hd.defaults)
  -- behind the last line feed there is an empty line
  have hnothing : readLines [[]] = some ⟨[], {}⟩ := rfl
  have hread := hsays.readLines_append [[]] {} hnothing
  rw [← Text.split_unlines hsays.newline_notMem] at hread
  rw [Document.read?, Manifest.render]
  refine (congrArg (Option.bind · Reading.document?) hread).trans ?_
  simp [Reading.document?, addVars, addRules, addEdges, addDefaults]

namespace Sample

/-- A document with every kind of path, in paths with every special character. -/
def document : Document where
  vars := [("root", "$top/src"), ("nothing", "")]
  rules :=
    [{ name := "cc", command := "clang -c $in -o $out", description := some "", deps := some "gcc",
       depfile := some "$out.d", restat := true },
     { name := "regen", command := "kiln", generator := true }]
  edges :=
    [{ outputs := [.literal "a$", .literal ":b"], rule := "cc", inputs := [.below "root" "a b.c"],
       implicit := [.literal "b.h", .literal " "], orderOnly := [.literal "stamp"],
       bindings := [("data", " 7b = 7d")] },
     { outputs := [.literal "all"], rule := phony, orderOnly := [.literal "a$"] }]
  defaults := [.literal "all", .literal ":b"]

theorem read_render_document :
    document.Clean ∧
      Document.read? (document.manifest ["generated, do not edit", ""]).render = some document := by
  have hclean : document.Clean := ⟨by decide, by decide, by decide, by decide⟩
  exact ⟨hclean, Document.read_render hclean (by decide)⟩

end Sample

end BuildPlan.Ninja
