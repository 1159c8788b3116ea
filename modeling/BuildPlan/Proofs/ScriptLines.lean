import BuildPlan.Proofs.Script

/-!
# The lines that reports name

An expectation is reported with the line of its directive, and an error with the line at fault.
Lines are counted through the whole script: blank lines, comments and the lines of texts count as
well. The lines that can be directives are those `Outside` of all texts, whatever the texts look
like, and the reading of a script is between two texts in front of exactly these
(`openText_eq_none_iff`). So the expectations of a scenario are the `expect` directives there, in
order; and the lines in front of a line at fault have no fault (`reports_name_lines`).
-/

namespace BuildPlan.Scenario

open Text (trim trimEnd)

/-! ## What lines say -/

/-- The line is, but for blanks around it, an `expect` directive with the value. -/
def IsExpect (line : List Char) (value : Int32) : Prop :=
  ∃ word, wordsOf (trim line) = .ok ["expect", word] ∧ Text.parseInt32? word.toList = some value

/-- The line is a directive with a text that the tag ends. -/
def Opens (line tag : List Char) : Prop :=
  tag ≠ [] ∧
    ((∃ path, wordsOf (trim line) = .ok ["file", path, "<<" ++ String.ofList tag]) ∨
      wordsOf (trim line) = .ok ["host", "<<" ++ String.ofList tag])

def lineAt? (ls : List (List Char)) : Nat → Option (List Char)
  | 0 => none
  | n + 1 => ls[n]?

theorem bounds_of_lineAt? {ls : List (List Char)} {n : Nat} {line : List Char}
    (h : lineAt? ls n = some line) : 1 ≤ n ∧ n ≤ ls.length := by
  cases n with
  | zero => cases h
  | succ n => exact ⟨Nat.le_add_left 1 n, (List.getElem?_eq_some_iff.mp h).1⟩

/-- The numbers of the lines that are neither part of a text nor the end of one; the last of them is
that behind the last line, if no text is open there. -/
inductive Outside (ls : List (List Char)) : Nat → Prop
  | first : Outside ls 1
  | next {n : Nat} {line : List Char} (before : Outside ls n) (here : lineAt? ls n = some line)
      (opens : ∀ tag, ¬ Opens line tag) : Outside ls (n + 1)
  | behind {n m : Nat} {line tag close : List Char} (before : Outside ls n)
      (here : lineAt? ls n = some line) (opens : Opens line tag) (later : n < m)
      (there : lineAt? ls m = some close) (closes : trimEnd close = tag)
      (between : ∀ k l, n < k → k < m → lineAt? ls k = some l → trimEnd l ≠ tag) :
      Outside ls (m + 1)

/-! ### Reading one line -/

theorem consWord_ok {word w : List Char} {ws : List (List Char)}
    {rest : Except WordError (List (List Char))} (h : consWord word rest = .ok (w :: ws)) :
    w = word.reverse := by
  cases rest with
  | error e => cases h
  | ok words => exact (List.cons.inj (Except.ok.inj h)).1.symm

theorem prefix_of_bare {word cs w : List Char} {ws : List (List Char)}
    (h : wordsFrom (.bare word) cs = .ok (w :: ws)) : word.reverse <+: w := by
  induction cs generalizing word with
  | nil =>
    rw [wordsFrom] at h
    exact (List.cons.inj (Except.ok.inj h)).1 ▸ List.prefix_rfl
  | cons c cs ih =>
    rw [wordsFrom] at h
    split_ifs at h
    · exact consWord_ok h ▸ List.prefix_rfl
    · have hprefix := ih h
      rw [List.reverse_cons] at hprefix
      exact (List.prefix_append _ _).trans hprefix

theorem head?_of_comment {cs : List Char} {command : String} {args : List String}
    (h : wordsOf ('#' :: cs) = .ok (command :: args)) : command.toList.head? = some '#' := by
  rw [wordsOf] at h
  split at h
  · rename_i words hwords
    rw [wordsFrom, if_neg (by decide), if_neg (by decide)] at hwords
    cases words with
    | nil => cases h
    | cons w ws =>
      obtain ⟨rest, rfl⟩ := prefix_of_bare hwords
      rw [← (List.cons.inj (Except.ok.inj h)).1, String.toList_ofList]
      rfl
  · cases h

theorem wordsOf_nil : wordsOf [] = .ok [] := rfl

theorem readDirective_of_words {number : Nat} {line : List Char} {command : String}
    {args : List String} {d : Directive} (hwords : wordsOf (trim line) = .ok (command :: args))
    (hcomment : command.toList.head? ≠ some '#')
    (hdirective : directive number command args = .ok d) :
    readDirective number line = .ok (some d) := by
  rw [readDirective]
  split
  · rename_i hnil
    rw [hnil, wordsOf_nil] at hwords
    cases hwords
  · rename_i cs hcs
    rw [hcs] at hwords
    exact absurd (head?_of_comment hwords) hcomment
  · rename_i hcs
    rw [hcs] at hwords
    simp only [hwords, hdirective]

theorem words_of_readDirective {number : Nat} {line : List Char} {d : Directive}
    (h : readDirective number line = .ok (some d)) : ∃ command args,
      wordsOf (trim line) = .ok (command :: args) ∧ directive number command args = .ok d := by
  rw [readDirective] at h
  split at h
  · cases h
  · cases h
  · rename_i hcs
    rw [hcs]
    split at h
    · cases h
    · cases h
    · rename_i command args hwords
      refine ⟨command, args, hwords, ?_⟩
      split at h
      · rename_i d' hd
        rw [hd, Option.some.inj (Except.ok.inj h)]
      · cases h

theorem textDirective_ok {word : String} {use use' : TextUse} {tag : List Char}
    (h : textDirective word use = .ok (.text tag use')) :
    tag ≠ [] ∧ word = "<<" ++ String.ofList tag := by
  rw [textDirective, tagOf] at h
  split at h
  · rename_i tag' htag
    split at htag
    · rename_i c cs hword
      obtain ⟨rfl, -⟩ := Directive.text.inj (Except.ok.inj h)
      rw [← Except.ok.inj htag]
      refine ⟨List.cons_ne_nil c cs, ?_⟩
      rw [← String.toList_inj, hword]
      simp
    · cases htag
  · cases h

theorem textDirective_calls (word : String) (use : TextUse) (cs : List Call) :
    textDirective word use ≠ .ok (.calls cs) := by
  rw [textDirective]
  split
  · rintro ⟨⟩
  · rintro ⟨⟩

theorem directive_text {number : Nat} {command : String} {args : List String} {tag : List Char}
    {use : TextUse} (h : directive number command args = .ok (.text tag use)) : tag ≠ [] ∧
      ((∃ path, command :: args = ["file", path, "<<" ++ String.ofList tag]) ∨
        command :: args = ["host", "<<" ++ String.ofList tag]) := by
  rw [directive.eq_def] at h
  split at h
  · split at h
    · obtain ⟨hne, rfl⟩ := textDirective_ok h
      exact ⟨hne, .inl ⟨_, rfl⟩⟩
    · cases h
  · split at h
    · obtain ⟨hne, rfl⟩ := textDirective_ok h
      exact ⟨hne, .inr rfl⟩
    · cases h
  all_goals
    repeat' split at h
    all_goals cases h

theorem directive_expect {number : Nat} {command : String} {args : List String} {cs : List Call}
    (h : directive number command args = .ok (.calls cs)) {value : Int32} {line : Nat}
    (hmem : .expect value line ∈ cs) : cs = [.expect value number] ∧
      ∃ word, command :: args = ["expect", word] ∧
        Text.parseInt32? word.toList = some value := by
  have hother : ∀ {ds : List Call}, (.ok (.calls ds) : Except SyntaxError Directive) =
      .ok (.calls cs) → .expect value line ∈ ds := by
    rintro ds hds
    rwa [Directive.calls.inj (Except.ok.inj hds)]
  rw [directive.eq_def] at h
  split at h
  · split at h
    · exact absurd h (textDirective_calls _ _ _)
    · cases h
  · split at h
    · exact absurd h (textDirective_calls _ _ _)
    · cases h
  · split at h
    · simpa using hother h
    · cases h
  · split at h
    · cases h
    · simpa using hother h
  · split at h
    · simpa using hother h
    · cases h
  · split at h
    · split at h
      · simpa using hother h
      · cases h
    · cases h
  · split at h
    · simpa using hother h
    · cases h
  · split at h
    · split at h
      · rename_i word _ value' hvalue
        obtain ⟨rfl, -⟩ := Call.expect.inj (List.mem_singleton.mp (hother h))
        exact ⟨(Directive.calls.inj (Except.ok.inj h)).symm, word, rfl, hvalue⟩
      · cases h
    · cases h
  · cases h

section Lines

variable {number : Nat} {line tag : List Char} {value : Int32}

theorem readDirective_of_isExpect (h : IsExpect line value) (number : Nat) :
    readDirective number line = .ok (some (.calls [.expect value number])) := by
  obtain ⟨word, hwords, hvalue⟩ := h
  refine readDirective_of_words hwords (by decide) ?_
  simp [directive, hvalue]

theorem isExpect_of_readDirective {cs : List Call}
    (h : readDirective number line = .ok (some (.calls cs))) {k : Nat}
    (hmem : .expect value k ∈ cs) : cs = [.expect value number] ∧ IsExpect line value := by
  obtain ⟨command, args, hwords, hdirective⟩ := words_of_readDirective h
  obtain ⟨hcs, word, hword, hvalue⟩ := directive_expect hdirective hmem
  exact ⟨hcs, word, by rw [hwords, hword], hvalue⟩

theorem opens_of_readDirective {use : TextUse}
    (h : readDirective number line = .ok (some (.text tag use))) : Opens line tag := by
  obtain ⟨command, args, hwords, hdirective⟩ := words_of_readDirective h
  obtain ⟨hne, hcases⟩ := directive_text hdirective
  rw [Opens, hwords]
  refine ⟨hne, hcases.imp ?_ ?_⟩
  · rintro ⟨path, hpath⟩
    exact ⟨path, by rw [hpath]⟩
  · intro hhost
    rw [hhost]

theorem readDirective_of_opens (h : Opens line tag) (number : Nat) :
    ∃ use, readDirective number line = .ok (some (.text tag use)) := by
  obtain ⟨hne, hcases⟩ := h
  have htext : ∀ use, textDirective ("<<" ++ String.ofList tag) use =
      .ok (.text tag use) := by
    intro use
    have htag : String.ofList tag ≠ "" := by simpa using hne
    rw [textDirective, tagOf_append htag, String.toList_ofList]
  rcases hcases with ⟨path, hwords⟩ | hwords
  · exact ⟨.file path, readDirective_of_words hwords (by decide) (htext _)⟩
  · exact ⟨.hostCode, readDirective_of_words hwords (by decide) (htext _)⟩

end Lines

/-! ## What a step can do -/

namespace Reading

/-- All that a line can make of a reading. -/
inductive Advance (r : Reading) (number : Nat) (line : List Char) : Reading → Prop
  | inText (t : OpenText) (under : r.openText = some t) (goes : trimEnd line ≠ t.tag)
      (body : List Char) :
      Advance r number line { r with openText := some { t with body := body } }
  | closes (t : OpenText) (b : Builder) (under : r.openText = some t) (ends : trimEnd line = t.tag)
      (made : r.builder.calls [t.use.call (String.ofList t.body)] = .ok b) :
      Advance r number line { r with builder := b, openText := none }
  | silent (between : r.openText = none) (read : readDirective number line = .ok none) :
      Advance r number line { r with line := number }
  | calls (cs : List Call) (b : Builder) (between : r.openText = none)
      (read : readDirective number line = .ok (some (.calls cs)))
      (made : r.builder.calls cs = .ok b) : Advance r number line ⟨b, number, none⟩
  | opens (tag : List Char) (use : TextUse) (between : r.openText = none)
      (read : readDirective number line = .ok (some (.text tag use))) :
      Advance r number line { r with line := number, openText := some ⟨tag, use, []⟩ }

theorem make_ok {r r' : Reading} {cs : List Call} (h : r.make cs = .ok r') :
    ∃ b, r.builder.calls cs = .ok b ∧ r' = { r with builder := b, openText := none } := by
  rw [make] at h
  split at h
  · rename_i b hb
    exact ⟨b, hb, (Except.ok.inj h).symm⟩
  · cases h

theorem advance_of_step {r r' : Reading} {number : Nat} {line : List Char}
    (h : r.step number line = .ok r') : r.Advance number line r' := by
  rw [step] at h
  split at h
  · rename_i t ht
    split_ifs at h with htag
    · obtain ⟨b, hb, rfl⟩ := make_ok h
      exact .closes t b ht htag hb
    · rw [← Except.ok.inj h]
      exact .inText t ht htag _
  · rename_i hnone
    split at h
    · cases h
    · rename_i hread
      rw [← Except.ok.inj h]
      exact .silent hnone hread
    · rename_i cs hread
      obtain ⟨b, hb, rfl⟩ := make_ok h
      exact .calls cs b hnone hread hb
    · rename_i tag use hread
      rw [← Except.ok.inj h]
      exact .opens tag use hnone hread

/-! ### What a line leaves open -/

section Advance

variable {r r' : Reading} {number : Nat} {line tag : List Char} {t : OpenText}

theorem Advance.openText_of_ends (h : r.Advance number line r') (ht : r.openText = some t)
    (hends : trimEnd line = t.tag) : r'.openText = none := by
  cases h with
  | inText t' ht' hgoes =>
    obtain rfl := Option.some.inj (ht.symm.trans ht')
    exact absurd hends hgoes
  | closes => rfl
  | silent hnone => exact hnone
  | calls => rfl
  | opens tag use hnone => rw [ht] at hnone; cases hnone

theorem Advance.openText_of_goes (h : r.Advance number line r') (ht : r.openText = some t)
    (hgoes : trimEnd line ≠ t.tag) : ∃ t', r'.openText = some t' ∧ t'.tag = t.tag := by
  cases h with
  | inText t' ht' =>
    obtain rfl := Option.some.inj (ht.symm.trans ht')
    exact ⟨_, rfl, rfl⟩
  | closes t' b ht' hends =>
    obtain rfl := Option.some.inj (ht.symm.trans ht')
    exact absurd hends hgoes
  | silent hnone => rw [ht] at hnone; cases hnone
  | calls cs b hnone => rw [ht] at hnone; cases hnone
  | opens tag use hnone => rw [ht] at hnone; cases hnone

theorem Advance.openText_of_opens (h : r.Advance number line r') (hnone : r.openText = none)
    (hopens : Opens line tag) : ∃ t, r'.openText = some t ∧ t.tag = tag := by
  obtain ⟨use, hdirective⟩ := readDirective_of_opens hopens number
  cases h with
  | inText t ht => rw [hnone] at ht; cases ht
  | closes t b ht => rw [hnone] at ht; cases ht
  | silent _ hread => rw [hdirective] at hread; cases hread
  | calls cs b _ hread => rw [hdirective] at hread; cases hread
  | opens tag' use' _ hread =>
    rw [hdirective] at hread
    obtain ⟨rfl, rfl⟩ := Directive.text.inj (Option.some.inj (Except.ok.inj hread))
    exact ⟨_, rfl, rfl⟩

theorem Advance.openText_of_not_opens (h : r.Advance number line r') (hnone : r.openText = none)
    (hopens : ∀ tag, ¬ Opens line tag) : r'.openText = none := by
  cases h with
  | inText t ht => rw [hnone] at ht; cases ht
  | closes => rfl
  | silent => exact hnone
  | calls => rfl
  | opens tag use _ hread => exact absurd (opens_of_readDirective hread) (hopens tag)

end Advance

end Reading

/-! ## Reading the first lines -/

/-- The reading has taken so many of the lines of a script. -/
def ReadTo (name : String) (ls : List (List Char)) (k : Nat) (r : Reading) : Prop :=
  k ≤ ls.length ∧ Reading.steps { builder := { name := name } } 1 (ls.take k) = .ok r

section Reached

variable {name : String} {ls : List (List Char)} {k : Nat} {r r' : Reading}

theorem readTo_zero (h : ReadTo name ls 0 r) : r = { builder := { name := name } } :=
  (Except.ok.inj h.2).symm

theorem readTo_succ_iff : ReadTo name ls (k + 1) r' ↔
    ∃ r line, ReadTo name ls k r ∧ lineAt? ls (k + 1) = some line ∧
      r.step (k + 1) line = .ok r' := by
  constructor
  · rintro ⟨hk, hsteps⟩
    rw [List.take_succ_eq_append_getElem (by omega), Reading.steps_append] at hsteps
    split at hsteps
    · rename_i r hr
      rw [Reading.steps_singleton, List.length_take_of_le (by omega), Nat.add_comm] at hsteps
      exact ⟨r, ls[k], ⟨by omega, hr⟩, List.getElem?_eq_getElem (by omega), hsteps⟩
    · cases hsteps
  · rintro ⟨r, line, ⟨hk, hr⟩, hline, hstep⟩
    obtain ⟨hlt, rfl⟩ := List.getElem?_eq_some_iff.mp hline
    refine ⟨hlt, ?_⟩
    rw [List.take_succ_eq_append_getElem hlt, Reading.steps_append, hr]
    simp only
    rw [Reading.steps_singleton, List.length_take_of_le hk, Nat.add_comm, hstep]

theorem ReadTo.advance (h : ReadTo name ls (k + 1) r') {line : List Char}
    (hline : lineAt? ls (k + 1) = some line) :
    ∃ r, ReadTo name ls k r ∧ r.Advance (k + 1) line r' := by
  obtain ⟨r, line', hr, hline', hstep⟩ := readTo_succ_iff.mp h
  obtain rfl := Option.some.inj (hline.symm.trans hline')
  exact ⟨r, hr, Reading.advance_of_step hstep⟩

theorem ReadTo.exists_earlier {j : Nat} (h : ReadTo name ls k r) (hj : j ≤ k) :
    ∃ r, ReadTo name ls j r := by
  induction k, hj using Nat.le_induction generalizing r with
  | base => exact ⟨r, h⟩
  | succ k _ ih =>
    obtain ⟨r₁, line, hr₁, -, -⟩ := readTo_succ_iff.mp h
    exact ih hr₁

theorem ReadTo.exists_line (h : ReadTo name ls (k + 1) r') :
    ∃ line, lineAt? ls (k + 1) = some line := by
  obtain ⟨r, line, -, hline, -⟩ := readTo_succ_iff.mp h
  exact ⟨line, hline⟩

end Reached

/-! ## Between two texts -/

section Between

variable {name : String} {ls : List (List Char)} {k : Nat} {r : Reading}

theorem openText_of_opens {n m : Nat} {r₀ : Reading} {line tag : List Char}
    (hstart : ReadTo name ls n r₀) (hnone : r₀.openText = none)
    (hline : lineAt? ls (n + 1) = some line) (hopens : Opens line tag)
    (hbetween : ∀ k l, n + 1 < k → k < m → lineAt? ls k = some l → trimEnd l ≠ tag)
    (hk : n + 1 ≤ k) (hkm : k < m) (hread : ReadTo name ls k r) :
    ∃ t, r.openText = some t ∧ t.tag = tag := by
  induction k, hk using Nat.le_induction generalizing r with
  | base =>
    obtain ⟨r₁, hr₁, hadvance⟩ := hread.advance hline
    obtain rfl := Except.ok.inj (hr₁.2.symm.trans hstart.2)
    exact hadvance.openText_of_opens hnone hopens
  | succ k hk ih =>
    obtain ⟨l, hl⟩ := hread.exists_line
    obtain ⟨r₁, hr₁, hadvance⟩ := hread.advance hl
    obtain ⟨t, ht, rfl⟩ := ih (by omega) hr₁
    exact hadvance.openText_of_goes ht (hbetween (k + 1) l (by omega) hkm hl)

theorem openText_of_outside (h : Outside ls (k + 1)) (hread : ReadTo name ls k r) :
    r.openText = none := by
  generalize hn : k + 1 = n at h
  induction h generalizing k r with
  | first =>
    obtain rfl : k = 0 := by omega
    rw [readTo_zero hread]
  | @next n line before hline hopens ih =>
    obtain rfl : k = n := by omega
    cases k with
    | zero => cases hline
    | succ k =>
      obtain ⟨r₁, hr₁, hadvance⟩ := hread.advance hline
      exact hadvance.openText_of_not_opens (ih hr₁ rfl) hopens
  | @behind n m line tag close before hline hopens hlater hclose hcloses hbetween ih =>
    obtain rfl : k = m := by omega
    cases n with
    | zero => cases hline
    | succ n =>
      cases k with
      | zero => cases hclose
      | succ k =>
        obtain ⟨r₁, hr₁, hadvance⟩ := hread.advance hclose
        -- the text was opened on the line `n + 1`
        obtain ⟨r₀, hr₀⟩ : ∃ r₀, ReadTo name ls n r₀ := hr₁.exists_earlier (by omega)
        obtain ⟨t, ht, rfl⟩ := openText_of_opens hr₀ (ih hr₀ rfl) hline hopens hbetween
          (by omega) (Nat.lt_succ_self k) hr₁
        exact hadvance.openText_of_ends ht hcloses

/-- Where a text is open: behind a line outside that opens it, none of the lines since then being
the end of it. -/
structure Under (name : String) (ls : List (List Char)) (k line : Nat) (t : OpenText) : Prop where
  outside : Outside ls line
  before : ∃ r, ReadTo name ls (line - 1) r ∧ r.openText = none
  opens : ∃ l, lineAt? ls line = some l ∧ Opens l t.tag
  bound : line ≤ k
  goes : ∀ j l, line < j → j ≤ k → lineAt? ls j = some l → trimEnd l ≠ t.tag

theorem outside_next {n : Nat} {l : List Char} {d : Option Directive} (h : Outside ls n)
    (hl : lineAt? ls n = some l) (hread : readDirective n l = .ok d)
    (hd : ∀ tag use, d ≠ some (.text tag use)) : Outside ls (n + 1) := by
  refine .next h hl fun tag hopens => ?_
  obtain ⟨use, hdirective⟩ := readDirective_of_opens hopens n
  rw [hread] at hdirective
  exact hd tag use (Except.ok.inj hdirective)

theorem place_of_readTo (h : ReadTo name ls k r) : r.builder.name = name ∧
    (r.openText = none → Outside ls (k + 1)) ∧
    ∀ t, r.openText = some t → Under name ls k r.line t := by
  induction k generalizing r with
  | zero =>
    rw [readTo_zero h]
    exact ⟨rfl, fun _ => .first, by rintro t ⟨⟩⟩
  | succ k ih =>
    obtain ⟨l, hl⟩ := h.exists_line
    obtain ⟨r₁, hr₁, hadvance⟩ := h.advance hl
    obtain ⟨hname, houtside, hunder⟩ := ih hr₁
    cases hadvance with
    | inText t ht hgoes body =>
      refine ⟨hname, by rintro ⟨⟩, ?_⟩
      rintro t' ⟨⟩
      have hunder := hunder t ht
      refine ⟨hunder.outside, hunder.before, hunder.opens, Nat.le_succ_of_le hunder.bound,
        ?_⟩
      intro j l' hlt hle hl'
      rcases Nat.lt_or_eq_of_le hle with hj | rfl
      · exact hunder.goes j l' hlt (by omega) hl'
      · rw [← Option.some.inj (hl.symm.trans hl')]
        exact hgoes
    | closes t b ht hends hmade =>
      refine ⟨(calls_name hmade).trans hname, fun _ => ?_, by rintro t' ⟨⟩⟩
      have hunder := hunder t ht
      obtain ⟨l', hl', hopens⟩ := hunder.opens
      exact .behind hunder.outside hl' hopens (Nat.lt_succ_of_le hunder.bound) hl hends
        fun j l'' hlt hj hl'' => hunder.goes j l'' hlt (by omega) hl''
    | silent hnone hread =>
      refine ⟨hname, fun _ => outside_next (houtside hnone) hl hread (by simp), ?_⟩
      intro t ht
      rw [hnone] at ht
      cases ht
    | calls cs b hnone hread hmade =>
      exact ⟨(calls_name hmade).trans hname,
        fun _ => outside_next (houtside hnone) hl hread (by simp), by rintro t ⟨⟩⟩
    | opens tag use hnone hread =>
      refine ⟨hname, by rintro ⟨⟩, ?_⟩
      rintro t ⟨⟩
      refine ⟨houtside hnone, ⟨r₁, hr₁, hnone⟩, ⟨l, hl, opens_of_readDirective hread⟩,
        Nat.le_refl _, ?_⟩
      intro j l' hlt hle
      exact absurd hle (by simpa using hlt)

/-- **A reading is between two texts exactly in front of the lines outside.** -/
theorem openText_eq_none_iff (h : ReadTo name ls k r) :
    r.openText = none ↔ Outside ls (k + 1) :=
  ⟨(place_of_readTo h).2.1, fun houtside => openText_of_outside houtside h⟩

end Between

/-! ## Expectations -/

/-- What a step expects, and where that is from. -/
def Step.expectation? : Step → Option (Int32 × ScriptLine)
  | .expect value origin => some (value, origin)
  | .update _ _ => none

def expectations (steps : List Step) : List (Int32 × ScriptLine) :=
  steps.filterMap Step.expectation?

/-- What a call expects in a script of that name. -/
def Call.expectation? (name : String) : Call → Option (Int32 × ScriptLine)
  | .expect value line => some (value, ⟨name, line⟩)
  | _ => none

theorem mem_expectations {steps : List Step} {value : Int32} {origin : ScriptLine} :
    (value, origin) ∈ expectations steps ↔ .expect value origin ∈ steps := by
  rw [expectations, List.mem_filterMap]
  constructor
  · rintro ⟨step, hstep, h⟩
    cases step with
    | update => cases h
    | expect value' origin' =>
      obtain ⟨rfl, rfl⟩ := Prod.mk.inj (Option.some.inj h)
      exact hstep
  · exact fun h => ⟨_, h, rfl⟩

theorem expectations_emitted (b : Builder) (c : Call) :
    expectations (emitted b c) = (c.expectation? b.name).toList := by
  cases c with
  | flush =>
    rw [emitted, expectations, updates, List.filterMap_map]
    exact List.filterMap_eq_nil_iff.mpr fun f _ => rfl
  | _ => rfl

theorem expectations_calls {b b' : Builder} {cs : List Call} (h : b.calls cs = .ok b') :
    expectations b'.steps =
      expectations b.steps ++ cs.filterMap (Call.expectation? b.name) := by
  induction cs generalizing b with
  | nil =>
    rw [Except.ok.inj h]
    exact (List.append_nil _).symm
  | cons c cs ih =>
    obtain ⟨b₁, hc, hcs⟩ := calls_cons.mp h
    have hfirst : expectations b₁.steps =
        expectations b.steps ++ (c.expectation? b.name).toList := by
      rw [← expectations_emitted, call_steps hc, expectations, List.filterMap_append]
      rfl
    rw [ih hcs, hfirst, call_name hc, List.append_assoc]
    cases h : c.expectation? b.name <;> simp [h]

theorem filterMap_expectation?_eq_nil {cs : List Call}
    (h : ∀ value line, Call.expect value line ∉ cs) (name : String) :
    cs.filterMap (Call.expectation? name) = [] := by
  refine List.filterMap_eq_nil_iff.mpr fun c hc => ?_
  cases c with
  | expect value line => exact absurd hc (h value line)
  | _ => rfl

theorem not_isExpect_of_readDirective {number : Nat} {line : List Char} {d : Option Directive}
    (h : readDirective number line = .ok d)
    (hd : ∀ value, d ≠ some (.calls [.expect value number])) (value : Int32) :
    ¬ IsExpect line value := by
  intro hexpect
  rw [readDirective_of_isExpect hexpect] at h
  exact hd value (Except.ok.inj h).symm

/-- What a line in front of which the reading stands can add to the expectations. -/
structure Adds (r : Reading) (number : Nat) (line : List Char) (new : List (Int32 × ScriptLine)) :
    Prop where
  one : new.length ≤ 1
  mem_iff : ∀ value origin, (value, origin) ∈ new ↔
    origin = ⟨r.builder.name, number⟩ ∧ r.openText = none ∧ IsExpect line value

theorem adds_nil {r : Reading} {number : Nat} {line : List Char}
    (h : r.openText = none → ∀ value, ¬ IsExpect line value) : Adds r number line [] := by
  refine ⟨Nat.zero_le 1, fun value origin => ?_⟩
  simp only [List.not_mem_nil, false_iff]
  rintro ⟨-, hnone, hexpect⟩
  exact h hnone value hexpect

theorem adds_calls {r : Reading} {number : Nat} {line : List Char} {cs : List Call}
    (hnone : r.openText = none) (hread : readDirective number line = .ok (some (.calls cs))) :
    Adds r number line (cs.filterMap (Call.expectation? r.builder.name)) := by
  by_cases hexpect : ∃ value k, Call.expect value k ∈ cs
  · obtain ⟨value, k, hmem⟩ := hexpect
    obtain ⟨rfl, his⟩ := isExpect_of_readDirective hread hmem
    refine ⟨by simp [Call.expectation?], fun value' origin => ?_⟩
    simp only [Call.expectation?, List.filterMap_cons, List.filterMap_nil, List.mem_singleton,
      Prod.mk.injEq]
    constructor
    · rintro ⟨rfl, rfl⟩
      exact ⟨rfl, hnone, his⟩
    · -- a line has one value
      rintro ⟨rfl, -, his'⟩
      have hsame := readDirective_of_isExpect his' number
      rw [hread] at hsame
      simp only [Except.ok.injEq, Option.some.injEq, Directive.calls.injEq, List.cons.injEq,
        Call.expect.injEq, and_true] at hsame
      exact ⟨hsame.symm, rfl⟩
  · have hno : ∀ value k, Call.expect value k ∉ cs := by simpa using hexpect
    rw [filterMap_expectation?_eq_nil hno]
    refine adds_nil fun _ => not_isExpect_of_readDirective hread fun value hcs => ?_
    obtain rfl := Directive.calls.inj (Option.some.inj hcs)
    exact hno value number List.mem_cons_self

/-- **A line adds the expectation that it is**, if no text is open, and nothing else. -/
theorem expectations_advance {r r' : Reading} {number : Nat} {line : List Char}
    (h : r.Advance number line r') : ∃ new,
      expectations r'.builder.steps = expectations r.builder.steps ++ new ∧
        Adds r number line new := by
  have hunder : ∀ {t}, r.openText = some t → r.openText = none → ∀ value,
      ¬ IsExpect line value := by
    intro t ht hnone
    rw [ht] at hnone
    cases hnone
  cases h with
  | inText t ht hgoes body => exact ⟨[], (List.append_nil _).symm, adds_nil (hunder ht)⟩
  | closes t b ht hends hmade =>
    refine ⟨[], ?_, adds_nil (hunder ht)⟩
    rw [expectations_calls hmade]
    cases t.use <;> rfl
  | silent hnone hread =>
    refine ⟨[], (List.append_nil _).symm, adds_nil fun _ => ?_⟩
    exact not_isExpect_of_readDirective hread fun value => by simp
  | opens tag use hnone hread =>
    refine ⟨[], (List.append_nil _).symm, adds_nil fun _ => ?_⟩
    exact not_isExpect_of_readDirective hread fun value => by simp
  | calls cs b hnone hread hmade =>
    exact ⟨_, expectations_calls hmade, adds_calls hnone hread⟩

/-- What a reading has expected so far. -/
structure Expected (name : String) (ls : List (List Char)) (k : Nat)
    (found : List (Int32 × ScriptLine)) : Prop where
  ordered : (found.map fun e => e.2.line).Pairwise (· < ·)
  mem_iff : ∀ value origin, (value, origin) ∈ found ↔ origin.script = name ∧ origin.line ≤ k ∧
    Outside ls origin.line ∧ ∃ line, lineAt? ls origin.line = some line ∧ IsExpect line value

theorem expected_zero (name : String) (ls : List (List Char)) : Expected name ls 0 [] := by
  refine ⟨List.Pairwise.nil, fun value origin => ?_⟩
  simp only [List.not_mem_nil, false_iff]
  rintro ⟨-, hzero, -, line, hline, -⟩
  rw [Nat.le_zero.mp hzero] at hline
  cases hline

theorem Expected.append {name : String} {ls : List (List Char)} {k : Nat} {r : Reading}
    {l : List Char} {found new : List (Int32 × ScriptLine)} (h : Expected name ls k found)
    (hread : ReadTo name ls k r) (hl : lineAt? ls (k + 1) = some l) (hnew : Adds r (k + 1) l new) :
    Expected name ls (k + 1) (found ++ new) := by
  have hmemNew := hnew.mem_iff
  rw [(place_of_readTo hread).1, openText_eq_none_iff hread] at hmemNew
  constructor
  · rw [List.map_append, List.pairwise_append]
    refine ⟨h.ordered, ?_, ?_⟩
    · have hone := hnew.one
      cases new with
      | nil => exact List.Pairwise.nil
      | cons e new =>
        obtain rfl := List.eq_nil_of_length_eq_zero (by simpa using hone)
        exact List.pairwise_singleton _ _
    · intro a ha b hb
      obtain ⟨⟨value, origin⟩, hearlier, rfl⟩ := List.mem_map.mp ha
      obtain ⟨⟨value', origin'⟩, hlast, rfl⟩ := List.mem_map.mp hb
      obtain ⟨-, hle, -⟩ := (h.mem_iff value origin).mp hearlier
      obtain ⟨rfl, -⟩ := (hmemNew value' origin').mp hlast
      exact Nat.lt_succ_of_le hle
  · intro value origin
    rw [List.mem_append, h.mem_iff, hmemNew]
    constructor
    · rintro (⟨hscript, hle, houtside⟩ | ⟨rfl, houtside, hexpect⟩)
      · exact ⟨hscript, Nat.le_succ_of_le hle, houtside⟩
      · exact ⟨rfl, Nat.le_refl _, houtside, l, hl, hexpect⟩
    · rintro ⟨hscript, hle, houtside, line, hline, hexpect⟩
      rcases Nat.lt_or_eq_of_le hle with hlt | hlast
      · exact .inl ⟨hscript, Nat.le_of_lt_succ hlt, houtside, line, hline, hexpect⟩
      · right
        obtain ⟨script, number⟩ := origin
        obtain rfl : number = k + 1 := hlast
        obtain rfl : script = name := hscript
        obtain rfl := Option.some.inj (hl.symm.trans hline)
        exact ⟨rfl, houtside, hexpect⟩

theorem expected_of_readTo {name : String} {ls : List (List Char)} {k : Nat} {r : Reading}
    (h : ReadTo name ls k r) : Expected name ls k (expectations r.builder.steps) := by
  induction k generalizing r with
  | zero =>
    rw [readTo_zero h]
    exact expected_zero name ls
  | succ k ih =>
    obtain ⟨l, hl⟩ := h.exists_line
    obtain ⟨r₁, hr₁, hadvance⟩ := h.advance hl
    obtain ⟨new, hnew, hadds⟩ := expectations_advance hadvance
    rw [hnew]
    exact (ih hr₁).append hr₁ hl hadds

/-! ## Faults -/

namespace ScriptError

def script : ScriptError → String
  | badSyntax script _ _ => script
  | step script _ _ => script

def line : ScriptError → Nat
  | badSyntax _ line _ => line
  | step _ line _ => line

/-- The error is that of a line; the other error is that no line declares a file. -/
def IsFault (e : ScriptError) : Prop :=
  ∀ script line, e ≠ .step script line .withoutFiles

end ScriptError

namespace Reading

theorem steps_eq_error {r : Reading} {number : Nat} {ls : List (List Char)} {e : ScriptError}
    (h : r.steps number ls = .error e) : ∃ front line rest r', ls = front ++ line :: rest ∧
      r.steps number front = .ok r' ∧ r'.step (number + front.length) line = .error e := by
  induction ls generalizing r number with
  | nil => cases h
  | cons l ls ih =>
    rw [steps] at h
    split at h
    · rename_i hstep
      exact ⟨[], l, ls, r, rfl, rfl, hstep.trans h⟩
    · rename_i r₁ hstep
      obtain ⟨front, line, rest, r', rfl, hfront, herror⟩ := ih h
      refine ⟨l :: front, line, rest, r', rfl, ?_, ?_⟩
      · rw [steps, hstep]
        exact hfront
      · rwa [List.length_cons, Nat.add_comm front.length, ← Nat.add_assoc]

theorem step_error {r : Reading} {number : Nat} {line : List Char} {e : ScriptError}
    (h : r.step number line = .error e) : e.script = r.builder.name ∧
      (r.openText = none ∧ e.line = number ∨ (∃ t, r.openText = some t) ∧ e.line = r.line) := by
  have hmake : ∀ {r : Reading} {cs : List Call}, r.make cs = .error e →
      e.script = r.builder.name ∧ e.line = r.line := by
    intro r cs hmake
    rw [make] at hmake
    split at hmake
    · cases hmake
    · rw [← Except.error.inj hmake]
      exact ⟨rfl, rfl⟩
  rw [step] at h
  split at h
  · rename_i t ht
    split_ifs at h
    obtain ⟨hscript, hline⟩ := hmake h
    exact ⟨hscript, .inr ⟨⟨t, ht⟩, hline⟩⟩
  · rename_i hnone
    split at h
    · rw [← Except.error.inj h]
      exact ⟨rfl, .inl ⟨hnone, rfl⟩⟩
    · cases h
    · obtain ⟨hscript, hline⟩ := hmake h
      exact ⟨hscript, .inl ⟨hnone, hline⟩⟩
    · cases h

theorem finish_of_none {r : Reading} (h : r.openText = none) :
    (∃ s, r.finish = .ok s) ∨
      r.finish = .error (.step r.builder.name r.line .withoutFiles) := by
  rw [finish, h]
  simp only [Builder.scenario]
  by_cases hfiles : r.builder.files.isEmpty
  · exact .inr (by rw [if_pos hfiles])
  · exact .inl ⟨_, by rw [if_neg hfiles]⟩

/-- At the end of a script only an open text is at fault. -/
theorem finish_error {r : Reading} {e : ScriptError} (h : r.finish = .error e)
    (hfault : e.IsFault) : e.script = r.builder.name ∧ e.line = r.line ∧
      ∃ t, r.openText = some t := by
  cases hopen : r.openText with
  | none =>
    rcases finish_of_none hopen with ⟨s, hs⟩ | hfiles
    · rw [h] at hs
      cases hs
    · exact absurd (Except.error.inj (h.symm.trans hfiles)) (hfault _ _)
  | some t =>
    rw [finish, hopen] at h
    rw [← Except.error.inj h]
    exact ⟨rfl, rfl, t, rfl⟩

theorem steps_of_finish {r : Reading} {s : Scenario} (h : r.finish = .ok s) :
    r.openText = none ∧ s.steps = r.builder.steps := by
  rw [finish] at h
  split at h
  · cases h
  · rename_i hnone
    split at h
    · rename_i s' hs
      rw [Builder.scenario] at hs
      split_ifs at hs
      rw [← Except.ok.inj h, ← Except.ok.inj hs]
      exact ⟨hnone, rfl⟩
    · cases h

end Reading

section Faults

variable {name source : String} {k : Nat} {r : Reading} {e : ScriptError}

/-- Where the line at fault is. -/
structure Culprit (name : String) (ls : List (List Char)) (e : ScriptError) : Prop where
  script : e.script = name
  line : ∃ l, lineAt? ls e.line = some l
  before : ∃ r, ReadTo name ls (e.line - 1) r ∧ r.openText = none

/-- Where a text is open, a fault lies where it was opened. -/
theorem culprit_of_open {ls : List (List Char)} (h : ReadTo name ls k r)
    (hscript : e.script = r.builder.name) (hline : e.line = r.line)
    (hopen : ∃ t, r.openText = some t) : Culprit name ls e := by
  obtain ⟨t, ht⟩ := hopen
  obtain ⟨hname, -, hunder⟩ := place_of_readTo h
  have hplace := hunder t ht
  obtain ⟨l, hl, -⟩ := hplace.opens
  rw [← hline] at hplace hl
  exact ⟨hscript.trans hname, ⟨l, hl⟩, hplace.before⟩

theorem culprit_of_parse (h : parse name source = .error e) (hfault : e.IsFault) :
    Culprit name (Text.lines source.toList) e := by
  rw [parse] at h
  generalize Text.lines source.toList = ls at h ⊢
  split at h
  · rename_i r hsteps
    have hread : ReadTo name ls ls.length r := ⟨Nat.le_refl _, by rwa [List.take_length]⟩
    obtain ⟨hscript, hline, hopen⟩ := Reading.finish_error h hfault
    exact culprit_of_open hread hscript hline hopen
  · rename_i e' hsteps
    obtain rfl := Except.error.inj h
    obtain ⟨front, line, rest, r, rfl, hfront, hstep⟩ := Reading.steps_eq_error hsteps
    have hread : ReadTo name (front ++ line :: rest) front.length r :=
      ⟨by simp, by rwa [List.take_left]⟩
    obtain ⟨hscript, ⟨hnone, hline⟩ | ⟨hopen, hline⟩⟩ := Reading.step_error hstep
    · refine ⟨hscript.trans (place_of_readTo hread).1, ⟨line, ?_⟩, r, ?_, hnone⟩
      · rw [hline, Nat.add_comm]
        simp [lineAt?]
      · rwa [hline, Nat.add_sub_cancel_left]
    · exact culprit_of_open hread hscript hline hopen

end Faults

/-! ## The first lines of a script -/

/-- The first lines of a source, with their endings. -/
def firstLines (source : String) (k : Nat) : String :=
  String.ofList ((Text.pieces source.toList).take k).flatten

theorem lines_firstLines (source : String) (k : Nat) :
    Text.lines (firstLines source k).toList = (Text.lines source.toList).take k := by
  rw [firstLines, String.toList_ofList, Text.lines, Text.pieces_flatten_take, List.map_take,
    Text.lines]

/-- Lines behind which no text is open have no fault. -/
theorem parse_firstLines {name source : String} {k : Nat} {r : Reading}
    (h : ReadTo name (Text.lines source.toList) k r) (hnone : r.openText = none) :
    (∃ s, parse name (firstLines source k) = .ok s) ∨
      ∃ line, parse name (firstLines source k) = .error (.step name line .withoutFiles) := by
  have hparse : parse name (firstLines source k) = r.finish := by
    rw [parse, lines_firstLines, h.2]
  rw [hparse]
  refine (Reading.finish_of_none hnone).imp id fun hfinish => ⟨r.line, ?_⟩
  rw [hfinish, (place_of_readTo h).1]

theorem expected_of_parse {name source : String} {s : Scenario} (h : parse name source = .ok s) :
    Expected name (Text.lines source.toList) (Text.lines source.toList).length
      (expectations s.steps) := by
  rw [parse] at h
  generalize Text.lines source.toList = ls at h ⊢
  split at h
  · rename_i r hsteps
    have hread : ReadTo name ls ls.length r := ⟨Nat.le_refl _, by rwa [List.take_length]⟩
    rw [(Reading.steps_of_finish h).2]
    exact expected_of_readTo hread
  · cases h

/-- **Reports name the right lines.** If a script gives a scenario, the lines that the expectations
name increase, and the expectations are the `expect` directives outside of all texts: each names
the script, and the number of a line, all lines of the script being counted from one, that is the
directive with its value; and each such directive is expected. If a line is at fault, it
is a line outside of all texts, and the lines in front of it alone have no fault, unless it be that
they declare no file. -/
theorem reports_name_lines (name source : String) :
    (∀ s, parse name source = .ok s →
      ((expectations s.steps).map fun e => e.2.line).Pairwise (· < ·) ∧
      ∀ value origin, .expect value origin ∈ s.steps ↔ origin.script = name ∧
        Outside (Text.lines source.toList) origin.line ∧
        ∃ line, lineAt? (Text.lines source.toList) origin.line = some line ∧
          IsExpect line value) ∧
    ∀ e, parse name source = .error e → e.IsFault →
      e.script = name ∧ Outside (Text.lines source.toList) e.line ∧
      (∃ line, lineAt? (Text.lines source.toList) e.line = some line) ∧
      ((∃ s, parse name (firstLines source (e.line - 1)) = .ok s) ∨
        ∃ line, parse name (firstLines source (e.line - 1)) =
          .error (.step name line .withoutFiles)) := by
  constructor
  · intro s hs
    rw [parse] at hs
    generalize Text.lines source.toList = ls at hs ⊢
    split at hs
    · rename_i r hsteps
      have hread : ReadTo name ls ls.length r := ⟨Nat.le_refl _, by rwa [List.take_length]⟩
      obtain ⟨hordered, hmem⟩ := expected_of_readTo hread
      obtain ⟨-, hsame⟩ := Reading.steps_of_finish hs
      rw [hsame]
      refine ⟨hordered, fun value origin => ?_⟩
      rw [← mem_expectations, hmem]
      refine and_congr_right fun _ => and_iff_right_of_imp ?_
      rintro ⟨-, line, hline, -⟩
      exact (bounds_of_lineAt? hline).2
    · cases hs
  · intro e he hfault
    obtain ⟨hscript, ⟨line, hline⟩, r, hread, hnone⟩ := culprit_of_parse he hfault
    have houtside := (openText_eq_none_iff hread).mp hnone
    rw [Nat.sub_add_cancel (bounds_of_lineAt? hline).1] at houtside
    exact ⟨hscript, houtside, ⟨line, hline⟩, parse_firstLines hread hnone⟩

namespace Sample

/-- A script with a directive in a text, a text that looks as if it had one, and a last line. -/
def texts (last : String) : String :=
  Text.unlines ["file a.c <<END", "expect 1", "END ", "# one", "", "expect 3", "host <<X",
    "file b.c <<END", " X", "X", last]

/-- What the script comes to that expects a result in its last line. -/
def expecting : Scenario where
  name := "s.scn"
  files := [⟨"a.c", "expect 1\n"⟩]
  includePaths := []
  hostHelpers := []
  hostCode := ["file b.c <<END\n X\n"]
  entry := usualEntry
  steps := [.expect 3 ⟨"s.scn", 6⟩, .expect (-2) ⟨"s.scn", 11⟩]

theorem reports_name_lines_texts :
    (parse "s.scn" (texts "expect -2") = .ok expecting ∧
      Outside (Text.lines (texts "expect -2").toList) 11 ∧
      ¬ Outside (Text.lines (texts "expect -2").toList) 2) ∧
    parse "s.scn" (texts "expect two") =
        .error (.badSyntax "s.scn" 11 (.expectedValue "two")) ∧
      ((∃ s, parse "s.scn" (firstLines (texts "expect two") 10) = .ok s) ∨
        ∃ line, parse "s.scn" (firstLines (texts "expect two") 10) =
          .error (.step "s.scn" line .withoutFiles)) := by
  have hok : parse "s.scn" (texts "expect -2") = .ok expecting := by decide +kernel
  have herror : parse "s.scn" (texts "expect two") =
      .error (.badSyntax "s.scn" 11 (.expectedValue "two")) := by decide +kernel
  obtain ⟨-, hiff⟩ := (reports_name_lines "s.scn" (texts "expect -2")).1 _ hok
  refine ⟨⟨hok, ?_, ?_⟩, herror, ?_⟩
  · exact ((hiff (-2) ⟨"s.scn", 11⟩).mp (by decide)).2.1
  · -- the line is a directive, but nothing is expected there
    intro houtside
    have hexpect := (hiff 1 ⟨"s.scn", 2⟩).mpr
      ⟨rfl, houtside, "expect 1".toList, by decide +kernel, "1", by decide +kernel,
        by decide +kernel⟩
    exact absurd hexpect (by decide)
  · exact ((reports_name_lines "s.scn" (texts "expect two")).2 _ herror (by rintro _ _ ⟨⟩)).2.2.2

end Sample

end BuildPlan.Scenario
