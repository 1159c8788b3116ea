import BuildPlan.Proofs.LiteralBytes
import BuildPlan.Proofs.PackingSteps

/-!
# The table of packed headers as C source

The names in the table of packed headers stand between quotes as they are. So a C compiler finds the
names that are meant exactly if none of them has a quote, a backslash or the end of a line in it
(`table_denotes_iff`).

That nothing else can come out right, not even where one name repairs what another one broke, is
counted: the bytes of all literals of the file are no more than those of all names, and fewer
wherever a name is not plain (`stringBytes_render`).
-/

/-! ## Rows -/

namespace BuildPlan.PackedHeaders

open CSource

def rowStart : List Char := [' ', ' ', ' ', ' ', '\x7b', ' ', '"']

/-- What stands between the name and the end of the line. -/
def rowEnd (offset : Nat) : List Char :=
  [',', ' '] ++ Nat.toDigits 10 offset ++ [' ', '\x7d', ',']

/-- A row, with its name as the lines are joined. -/
def rowChars (name : List Char) (offset : Nat) : List Char :=
  rowStart ++ (name ++ '"' :: (rowEnd offset ++ ['\n']))

theorem quote?_of_mem_rowEnd {offset : Nat} {c : Char} (h : c ∈ rowEnd offset) :
    quote? c = none := by
  rw [rowEnd, List.mem_append, List.mem_append] at h
  rcases h with (h | h) | h
  · simp only [List.mem_cons, List.not_mem_nil, or_false] at h
    rcases h with rfl | rfl <;> rfl
  · exact quote?_of_isDigit (Text.isDigit_of_mem_toDigits h)
  · simp only [List.mem_cons, List.not_mem_nil, or_false] at h
    rcases h with rfl | rfl | rfl <;> rfl

theorem run_rowEnd {st st' : State} {offset : Nat} {ts : List Token}
    (h : run st ('"' :: (rowEnd offset ++ ['\n'])) = some (ts, st')) :
    stringBytes ts ≤ st.weight ∧ st'.AtLine := by
  obtain ⟨us, st₁, vs, htake, hend, rfl⟩ := run_cons_eq_some h
  have hquiet : ∀ c ∈ rowEnd offset, quote? c = none := fun c => quote?_of_mem_rowEnd
  rcases take_quote htake with ⟨q, bytes, e, hst⟩ | ⟨houtside, hle⟩
  · rw [hst, literal_line hquiet] at hend
    cases hend
  · obtain ⟨hbytes, hline⟩ := outside_line hquiet houtside hend
    exact ⟨by rw [stringBytes_append, hbytes]; exact hle, hline⟩

/-- **A row gives no more bytes than its name has**, and as many only if the name is plain. -/
theorem run_rowChars {st st' : State} (hst : st.AtLine) {name : List Char} {offset : Nat}
    {ts : List Token} (h : run st (rowChars name offset) = some (ts, st')) :
    st'.AtLine ∧ stringBytes ts ≤ encodedLength name ∧
      (stringBytes ts = encodedLength name → ∀ c ∈ name, isPlain c = true) := by
  obtain ⟨us, st₁, vs, hstart, hrest, rfl⟩ := run_append_eq_some h
  obtain ⟨ws, st₂, xs, hname, hend, rfl⟩ := run_append_eq_some hrest
  obtain ⟨hend, hline⟩ := run_rowEnd hend
  rw [stringBytes_append, stringBytes_append]
  refine ⟨hline, ?_⟩
  have hbetween : run .between rowStart =
      some ([.sign '\x7b'], .literal .double [] .outside) := by decide
  have hblock : run (.block false) rowStart = some ([], .block false) := by decide
  rcases hst with rfl | rfl
  · obtain ⟨rfl, rfl⟩ := Prod.mk.inj (Option.some.inj (hstart.symm.trans hbetween))
    have hle := within_run _ _ ws st₂ hname
    have hplain := plain_or_lt hname
    simp only [stringBytes, Token.size, State.weight, Escape.weight, List.map_cons, List.map_nil,
      List.sum_cons, List.sum_nil, List.length_nil] at hend hle hplain ⊢
    refine ⟨by omega, fun heq => hplain.resolve_right (by omega)⟩
  · -- in a comment the first character of the name is lost
    obtain ⟨rfl, rfl⟩ := Prod.mk.inj (Option.some.inj (hstart.symm.trans hblock))
    cases name with
    | nil =>
      obtain ⟨rfl, rfl⟩ := Prod.mk.inj (Option.some.inj hname)
      simp only [stringBytes, State.weight, List.map_nil, List.sum_nil] at hend ⊢
      exact ⟨by omega, by simp⟩
    | cons c name =>
      have hlt := block_lt hname
      simp only [stringBytes, List.map_nil, List.sum_nil] at hend hlt ⊢
      exact ⟨by omega, by omega⟩

/-! ## Joined lines -/

theorem splice_rowChars (name : List Char) (offset : Nat) (rest : List Char) :
    splice (rowChars name offset ++ rest) = rowChars (splice name) offset ++ splice rest := by
  have hend : '\\' ∉ '"' :: (rowEnd offset ++ ['\n']) := by
    have hdigits : '\\' ∉ Nat.toDigits 10 offset := Text.notMem_toDigits (by decide) offset
    simp [rowEnd, hdigits]
  have hlast : ('"' :: (rowEnd offset ++ ['\n'])).getLast? ≠ some '\\' := by
    rw [← List.cons_append, List.getLast?_concat]
    decide
  have hstart : splice rowStart = rowStart := by decide
  rw [rowChars, rowChars, List.append_assoc, List.append_assoc, List.append_assoc,
    splice_append (.inl (by decide)), splice_append (.inr (by simp)), splice_append (.inl hlast),
    splice_of_backslash_notMem hend, hstart, List.append_assoc]

/-- The rows of a table, with each name as the lines are joined. -/
def rowsChars (entries : List PackedEntry) : List Char :=
  entries.flatMap fun e => rowChars (splice e.path.toList) e.offset

theorem splice_rows (entries : List PackedEntry) (rest : List Char) :
    splice (entries.flatMap (fun e => rowChars e.path.toList e.offset) ++ rest) =
      rowsChars entries ++ splice rest := by
  induction entries with
  | nil => rfl
  | cons e entries ih =>
    rw [List.flatMap_cons, List.append_assoc, splice_rowChars, ih, rowsChars, rowsChars,
      List.flatMap_cons, List.append_assoc]

def nameBytes (entries : List PackedEntry) : Nat :=
  (entries.map fun e => encodedLength e.path.toList).sum

/-- The name can stand between quotes as it is. -/
def IsPlainName (name : String) : Prop :=
  ∀ c ∈ name.toList, isPlain c = true

theorem run_rowsChars {entries : List PackedEntry} {st st' : State} (hst : st.AtLine)
    {ts : List Token} (h : run st (rowsChars entries) = some (ts, st')) :
    st'.AtLine ∧ stringBytes ts ≤ nameBytes entries ∧
      (stringBytes ts = nameBytes entries → ∀ e ∈ entries, IsPlainName e.path) := by
  induction entries generalizing st ts with
  | nil =>
    obtain ⟨rfl, rfl⟩ := Prod.mk.inj (Option.some.inj h)
    exact ⟨hst, Nat.zero_le _, by simp⟩
  | cons e entries ih =>
    obtain ⟨us, st₁, vs, hrow, hrows, rfl⟩ := run_append_eq_some h
    obtain ⟨hline, hle, hplain⟩ := run_rowChars hst hrow
    obtain ⟨hline', hle', hplain'⟩ := ih hline hrows
    rw [stringBytes_append, nameBytes, List.map_cons, List.sum_cons, ← nameBytes]
    rcases splice_eq_or_lt e.path.toList with heq | hlt
    · rw [heq] at hle hplain
      refine ⟨hline', by omega, fun hsum => List.forall_mem_cons.mpr ⟨?_, ?_⟩⟩
      · exact hplain (by omega)
      · exact hplain' (by omega)
    · exact ⟨hline', by omega, by omega⟩

/-! ## The text of a table -/

def headText (size : Nat) : String :=
  Text.unlines preamble ++
    ("static CompilerInclude compiler_includes[" ++ (Nat.repr size ++ "] = \x7b\n"))

def blobText (bytes : Bytes) : String :=
  "static unsigned char compiler_include_blob[" ++ (Nat.repr bytes.length ++
    ("] = \x7b\n" ++ (Text.unlines (byteLines bytes) ++ "\x7d;\n")))

theorem render_eq (h : PackedHeaders) :
    h.render = headText h.entries.length ++
      (Text.unlines (h.entries.map row) ++ ("\x7d;\n" ++ blobText h.bytes)) := by
  unfold render headText blobText
  simp only [Text.unlines_append]
  simp [Text.unlines, ← String.toList_inj]

theorem toList_unlines_rows (entries : List PackedEntry) :
    (Text.unlines (entries.map row)).toList =
      entries.flatMap fun e => rowChars e.path.toList e.offset := by
  have hrow : ∀ e : PackedEntry, (row e).toList ++ ['\n'] = rowChars e.path.toList e.offset := by
    intro e
    simp [row, rowChars, rowStart, rowEnd]
  rw [Text.toList_unlines, List.flatMap_map]
  simp only [hrow]

/-! ### Its characters -/

theorem mem_wrapFrom {width : Nat} {line : List Char} {words : List (List Char)} {l : List Char}
    (hl : l ∈ Text.wrapFrom width line words) {c : Char} (hc : c ∈ l) :
    c = ' ' ∨ c ∈ line ∨ ∃ w ∈ words, c ∈ w := by
  induction words generalizing line with
  | nil =>
    rw [Text.wrapFrom] at hl
    split_ifs at hl
    · cases hl
    · exact .inr (.inl (List.mem_singleton.mp hl ▸ hc))
  | cons w words ih =>
    have hlater : ∀ {line' : List Char}, l ∈ Text.wrapFrom width line' words →
        (c ∈ line' → c = ' ' ∨ c ∈ line ∨ c ∈ w) →
        c = ' ' ∨ c ∈ line ∨ ∃ v ∈ w :: words, c ∈ v := by
      intro line' hl hline
      have hw : c ∈ w → ∃ v ∈ w :: words, c ∈ v := fun h => ⟨w, List.mem_cons_self, h⟩
      rcases ih hl with h | h | ⟨v, hv, h⟩
      · exact .inl h
      · exact (hline h).imp_right (.imp_right hw)
      · exact .inr (.inr ⟨v, List.mem_cons_of_mem w hv, h⟩)
    rw [Text.wrapFrom] at hl
    split_ifs at hl
    · exact hlater hl fun h => .inr (.inr h)
    · rcases List.mem_cons.mp hl with rfl | hl
      · exact .inr (.inl hc)
      · exact hlater hl fun h => .inr (.inr h)
    · apply hlater hl
      simp only [List.mem_append, List.mem_cons]
      tauto

theorem mem_byteWords {bytes : Bytes} {w : List Char} (hw : w ∈ byteWords bytes) {c : Char}
    (hc : c ∈ w) : c.isDigit = true ∨ c = ',' := by
  induction bytes with
  | nil => cases hw
  | cons b bytes ih =>
    cases bytes with
    | nil =>
      rw [byteWords, List.mem_singleton] at hw
      subst hw
      exact .inl (Text.isDigit_of_mem_toDigits hc)
    | cons b' bytes =>
      rw [byteWords] at hw
      rcases List.mem_cons.mp hw with rfl | hw
      · rcases List.mem_append.mp hc with hc | hc
        · exact .inl (Text.isDigit_of_mem_toDigits hc)
        · exact .inr (List.mem_singleton.mp hc)
      · exact ih hw

theorem bland_byteLines (bytes : Bytes) : Consists isBland (Text.unlines (byteLines bytes)) := by
  apply consists_unlines (by decide)
  intro line hline c hc
  obtain ⟨l, hl, rfl⟩ := List.mem_map.mp hline
  rw [String.toList_ofList] at hc
  rcases mem_wrapFrom hl hc with rfl | hc | ⟨w, hw, hc⟩
  · decide
  · cases hc
  · rcases mem_byteWords hw hc with hc | rfl
    · exact isBland_of_isDigit hc
    · decide

theorem bland_blobText (bytes : Bytes) : Consists isBland (blobText bytes) := by
  have hstart : Consists isBland "static unsigned char compiler_include_blob[" :=
    consists_ofList (by decide)
  have hopen : Consists isBland "] = \x7b\n" := consists_ofList (by decide)
  have hclose : Consists isBland "\x7d;\n" := consists_ofList (by decide)
  exact hstart.append ((bland_repr _).append (hopen.append ((bland_byteLines bytes).append hclose)))

theorem quiet_headText (size : Nat) : Consists isQuiet (headText size) := by
  have hpreamble : Consists isQuiet (Text.unlines preamble) := by
    apply consists_unlines (by decide)
    rw [preamble]
    repeat refine List.forall_mem_cons.mpr ⟨consists_ofList (by decide), ?_⟩
    exact List.forall_mem_nil _
  have hstart : Consists isQuiet "static CompilerInclude compiler_includes[" :=
    consists_ofList (by decide)
  have hopen : Consists isQuiet "] = \x7b\n" := consists_ofList (by decide)
  exact hpreamble.append (hstart.append ((bland_repr _).quiet.append hopen))

/-! ## All tokens of a table -/

theorem endsLine_headText (size : Nat) : EndsLine (headText size) :=
  EndsLine.append (EndsLine.append (EndsLine.append (by decide) _) _) _

theorem endsLine_blobText (bytes : Bytes) : EndsLine (blobText bytes) :=
  EndsLine.append (EndsLine.append (EndsLine.append (EndsLine.append (by decide) _) _) _) _

theorem splice_render (h : PackedHeaders) :
    splice h.render.toList = (headText h.entries.length).toList ++
      (rowsChars h.entries ++ ("\x7d;\n" ++ blobText h.bytes).toList) := by
  have hclose : Consists isQuiet "\x7d;\n" := consists_ofList (by decide)
  have htail := (hclose.append (bland_blobText h.bytes).quiet).splice_eq
  have hhead : (headText h.entries.length).toList.getLast? ≠ some '\\' := by
    rw [endsLine_headText]
    decide
  rw [render_eq, String.toList_append, splice_append (.inl hhead),
    (quiet_headText _).splice_eq, String.toList_append, toList_unlines_rows, splice_rows, htail]

/-- **The literals of a table have no more bytes than its names**, and as many only if these are all
plain. -/
theorem stringBytes_render {h : PackedHeaders} {ts : List Token}
    (hts : tokens? h.render = some ts) : stringBytes ts ≤ nameBytes h.entries ∧
      (stringBytes ts = nameBytes h.entries → ∀ e ∈ h.entries, IsPlainName e.path) := by
  have hclose : Consists isQuiet "\x7d;\n" := consists_ofList (by decide)
  rw [tokens?, charTokens?, splice_render] at hts
  obtain ⟨⟨ts', st⟩, hrun, hmap⟩ := Option.bind_eq_some_iff.mp hts
  obtain ⟨us, hus, rfl⟩ := Option.map_eq_some_iff.mp hmap
  obtain ⟨vs, st₁, ws, hhead, hrest, rfl⟩ := run_append_eq_some hrun
  obtain ⟨xs, st₂, ys, hrows, htail, rfl⟩ := run_append_eq_some hrest
  obtain ⟨hhead, hline⟩ := (quiet_headText _).run_eq (endsLine_headText _) rfl hhead
  obtain ⟨hline, hle, hplain⟩ := run_rowsChars hline hrows
  obtain ⟨htail, hline⟩ := (hclose.append (bland_blobText h.bytes).quiet).run_eq
    ((endsLine_blobText _).append _) hline.isOutside htail
  have hfinish : stringBytes us = 0 := by
    rcases hline with hst | hst
    · rw [hst] at hus
      obtain rfl := Option.some.inj hus
      rfl
    · rw [hst] at hus
      cases hus
  simp only [stringBytes_append, hhead, htail, hfinish, Nat.zero_add, Nat.add_zero]
  exact ⟨hle, hplain⟩

/-! ## The table -/

/-- A row of the table: a name and a number. -/
def entry : Parser (Bytes × Nat) := do
  expect "\x7b"
  let path ← literal
  expect ","
  let offset ← number
  expect "\x7d,"
  return (path, offset)

def rows : Nat → Parser (List (Bytes × Nat))
  | 0 => pure []
  | n + 1 => do
    let first ← entry
    let rest ← rows n
    return first :: rest

/-- The table, with as many rows as it has places. -/
def table : Parser (List (Bytes × Nat)) := do
  expect (Text.unlines preamble)
  expect "static CompilerInclude compiler_includes["
  let size ← number
  expect "] = \x7b"
  let found ← rows size
  expect "\x7d;"
  return found

/-- What the table of a header file names, with the offsets. -/
def table? (source : String) : Option (List (Bytes × Nat)) :=
  (tokens? source).bind fun ts => (table ts).map Prod.fst

/-- What the table should name. -/
def named (entries : List PackedEntry) : List (Bytes × Nat) :=
  entries.map fun e => (Text.toUtf8 e.path, e.offset)

/-! ### Plain names -/

theorem reads_plain {name : String} (h : IsPlainName name) :
    Reads ("\"" ++ (name ++ "\"")) [.string (Text.toUtf8 name)] := by
  have htext : ("\"" ++ (name ++ "\"")).toList = '"' :: (name.toList ++ ['"']) := by
    simp [String.toList_append]
  have hbytes : Text.toUtf8 name = name.toList.flatMap String.utf8EncodeChar := by
    rw [← Text.toUtf8_ofList, String.ofList_toList]
  refine ⟨splice_of_backslash_notMem ?_, ?_⟩
  · have hname : '\\' ∉ name.toList := fun hmem => absurd (h _ hmem) (by decide)
    rw [htext]
    simp [hname]
  · have hopen : State.between.take '"' = some ([], .literal .double [] .outside) := rfl
    rw [htext, run_cons hopen, run_append, run_plain h, Option.bind_some, hbytes]
    rfl

theorem yields_entry {e : PackedEntry} (h : IsPlainName e.path) :
    Yields entry (row e ++ "\n") (Text.toUtf8 e.path, e.offset) := by
  have htext : row e ++ "\n" = "    \x7b " ++ (("\"" ++ (e.path ++ "\"")) ++ (", " ++
      (Nat.repr e.offset ++ " \x7d,\n"))) := by
    simp [row, ← String.toList_inj]
  rw [htext]
  apply StandsFor.then (standsFor_ofList (by decide))
  refine yields_literal (reads_plain h) ?_ (Opens.append (by decide) _)
  apply StandsFor.then (standsFor_ofList (by decide))
  refine yields_number _ ?_ (by decide)
  exact StandsFor.last (standsFor_ofList (by decide))

theorem yields_rows {entries : List PackedEntry} (h : ∀ e ∈ entries, IsPlainName e.path) :
    Yields (rows entries.length) (Text.unlines (entries.map row)) (named entries) := by
  induction entries with
  | nil => exact yields_pure []
  | cons e entries ih =>
    obtain ⟨he, hentries⟩ := List.forall_mem_cons.mp h
    have hrest : Yields (rows entries.length >>= fun rest =>
        pure ((Text.toUtf8 e.path, e.offset) :: rest))
        (Text.unlines (entries.map row) ++ "") (named (e :: entries)) :=
      (ih hentries).bind (yields_pure _)
    have hall : Yields (rows (entries.length + 1))
        ((row e ++ "\n") ++ (Text.unlines (entries.map row) ++ "")) (named (e :: entries)) :=
      (yields_entry he).bind hrest
    rwa [String.append_empty] at hall

theorem settled_preamble : Settled (Text.unlines preamble) := by
  rw [preamble]
  repeat refine settled_unlines_cons (by decide) ?_
  exact settled_unlines_nil

theorem table?_of_plain {h : PackedHeaders} (hplain : ∀ e ∈ h.entries, IsPlainName e.path) :
    table? h.render = some (named h.entries) := by
  have htable : Yields table (headText h.entries.length ++
      (Text.unlines (h.entries.map row) ++ "\x7d;\n")) (named h.entries) := by
    rw [headText, String.append_assoc, String.append_assoc, String.append_assoc]
    apply StandsFor.then ⟨settled_preamble, rfl⟩
    apply StandsFor.then (standsFor_ofList (by decide))
    refine yields_number _ ?_ (Opens.append (by decide) _)
    apply StandsFor.then (standsFor_ofList (by decide))
    refine (yields_rows hplain).bind ?_
    exact StandsFor.last (standsFor_ofList (by decide))
  obtain ⟨ts, hts, hread⟩ := htable
  obtain ⟨us, hus⟩ := exists_reads_of_bland (bland_blobText h.bytes) (endsLine_blobText h.bytes)
  have hall := hts.append hus
  have hrender : h.render = headText h.entries.length ++
      (Text.unlines (h.entries.map row) ++ "\x7d;\n") ++ blobText h.bytes := by
    rw [render_eq, String.append_assoc, String.append_assoc]
  rw [table?, hrender, hall.tokens?_eq, Option.bind_some, hread]
  rfl

/-! ### Any names -/

section Spent

variable {ts rest : List Token}

theorem bind_eq_some {α β : Type} {p : Parser α} {f : α → Parser β} {b : β}
    (h : (p >>= f) ts = some (b, rest)) :
    ∃ a us, p ts = some (a, us) ∧ f a us = some (b, rest) := by
  obtain ⟨r, hr, hf⟩ := Option.bind_eq_some_iff.mp h
  exact ⟨r.1, r.2, hr, hf⟩

theorem stringBytes_of_expect {text : String} (h : expect text ts = some ((), rest)) :
    stringBytes rest ≤ stringBytes ts := by
  obtain ⟨fixed, -, hprefix⟩ := Option.bind_eq_some_iff.mp h
  split_ifs at hprefix with hfixed
  obtain ⟨us, rfl⟩ := hfixed
  obtain ⟨-, rfl⟩ := Prod.mk.inj (Option.some.inj hprefix)
  rw [List.drop_left, stringBytes_append]
  omega

theorem stringBytes_of_number {n : Nat} (h : number ts = some (n, rest)) :
    stringBytes rest ≤ stringBytes ts := by
  rw [number.eq_def] at h
  split at h
  · obtain ⟨m, -, hpair⟩ := Option.map_eq_some_iff.mp h
    obtain ⟨-, rfl⟩ := Prod.mk.inj hpair
    simp [stringBytes]
  · cases h

theorem stringBytes_adjacent (ts : List Token) :
    (adjacent ts).1.length + stringBytes (adjacent ts).2 = stringBytes ts := by
  fun_induction adjacent ts with
  | case1 bytes ts ih =>
    have hcons : stringBytes (.string bytes :: ts) = bytes.length + stringBytes ts := rfl
    show (bytes ++ (adjacent ts).1).length + stringBytes (adjacent ts).2 = _
    rw [List.length_append, hcons]
    omega
  | case2 ts => exact Nat.zero_add _

theorem stringBytes_of_literal {bytes : Bytes} (h : literal ts = some (bytes, rest)) :
    bytes.length + stringBytes rest = stringBytes ts := by
  rw [literal.eq_def] at h
  split at h
  · rename_i first us
    have hadjacent := stringBytes_adjacent (.string first :: us)
    rw [Option.some.inj h] at hadjacent
    exact hadjacent
  · cases h

theorem stringBytes_of_entry {found : Bytes × Nat} (h : entry ts = some (found, rest)) :
    found.1.length + stringBytes rest ≤ stringBytes ts := by
  obtain ⟨_, ts₁, h₁, h⟩ := bind_eq_some h
  obtain ⟨path, ts₂, h₂, h⟩ := bind_eq_some h
  obtain ⟨_, ts₃, h₃, h⟩ := bind_eq_some h
  obtain ⟨offset, ts₄, h₄, h⟩ := bind_eq_some h
  obtain ⟨_, ts₅, h₅, h⟩ := bind_eq_some h
  obtain ⟨rfl, rfl⟩ := Prod.mk.inj (Option.some.inj h)
  have h₁ := stringBytes_of_expect h₁
  have h₂ := stringBytes_of_literal h₂
  have h₃ := stringBytes_of_expect h₃
  have h₄ := stringBytes_of_number h₄
  have h₅ := stringBytes_of_expect h₅
  show path.length + stringBytes _ ≤ _
  omega

/-- The bytes of all names that were found. -/
def foundBytes (found : List (Bytes × Nat)) : Nat :=
  (found.map fun f => f.1.length).sum

theorem stringBytes_of_rows {n : Nat} {found : List (Bytes × Nat)}
    (h : rows n ts = some (found, rest)) :
    foundBytes found + stringBytes rest ≤ stringBytes ts := by
  induction n generalizing ts found with
  | zero =>
    obtain ⟨rfl, rfl⟩ := Prod.mk.inj (Option.some.inj h)
    exact Nat.le_of_eq (Nat.zero_add _)
  | succ n ih =>
    obtain ⟨first, ts₁, h₁, h⟩ := bind_eq_some h
    obtain ⟨others, ts₂, h₂, h⟩ := bind_eq_some h
    obtain ⟨rfl, rfl⟩ := Prod.mk.inj (Option.some.inj h)
    have h₁ := stringBytes_of_entry h₁
    have h₂ := ih h₂
    rw [foundBytes, List.map_cons, List.sum_cons, ← foundBytes]
    omega

theorem stringBytes_of_table {found : List (Bytes × Nat)} (h : table ts = some (found, rest)) :
    foundBytes found ≤ stringBytes ts := by
  obtain ⟨_, ts₁, h₁, h⟩ := bind_eq_some h
  obtain ⟨_, ts₂, h₂, h⟩ := bind_eq_some h
  obtain ⟨size, ts₃, h₃, h⟩ := bind_eq_some h
  obtain ⟨_, ts₄, h₄, h⟩ := bind_eq_some h
  obtain ⟨found', ts₅, h₅, h⟩ := bind_eq_some h
  obtain ⟨_, ts₆, h₆, h⟩ := bind_eq_some h
  obtain ⟨rfl, rfl⟩ := Prod.mk.inj (Option.some.inj h)
  have h₁ := stringBytes_of_expect h₁
  have h₂ := stringBytes_of_expect h₂
  have h₃ := stringBytes_of_number h₃
  have h₄ := stringBytes_of_expect h₄
  have h₅ := stringBytes_of_rows h₅
  omega

end Spent

theorem foundBytes_named (entries : List PackedEntry) :
    foundBytes (named entries) = nameBytes entries := by
  have hbytes : ∀ e : PackedEntry,
      (Text.toUtf8 e.path).length = encodedLength e.path.toList := by
    intro e
    rw [encodedLength, ← Text.toUtf8_ofList, String.ofList_toList]
  rw [foundBytes, named, nameBytes, List.map_map]
  exact congrArg List.sum (List.map_congr_left fun e _ => hbytes e)

/-- **The names of a table are what is meant exactly if they are plain.** -/
theorem table?_eq_iff (h : PackedHeaders) :
    table? h.render = some (named h.entries) ↔ ∀ e ∈ h.entries, IsPlainName e.path := by
  refine ⟨fun htable => ?_, table?_of_plain⟩
  obtain ⟨ts, hts, hmap⟩ := Option.bind_eq_some_iff.mp htable
  obtain ⟨⟨found, rest⟩, hfound, rfl⟩ := Option.map_eq_some_iff.mp hmap
  have hspent := stringBytes_of_table hfound
  rw [foundBytes_named] at hspent
  obtain ⟨hle, hplain⟩ := stringBytes_render hts
  exact hplain (Nat.le_antisymm hle hspent)

end BuildPlan.PackedHeaders

/-! ## Packed headers -/

namespace BuildPlan.Pack

open PackedHeaders CSource

theorem exists_parts_of_packHeaders {t : FileTree} {root : String} {headers : List String}
    {packed : PackedHeaders} (h : packHeaders t root headers = .ok packed) :
    ∃ parts, List.Forall₂ (Packs t root) headers parts ∧ packed = pushAll {} parts := by
  cases headers with
  | nil => cases h
  | cons first headers =>
    rw [packHeaders, packOnto_eq_mapM] at h
    cases hparts : (first :: headers).mapM (partAt t root) with
    | error e =>
      rw [hparts] at h
      cases h
    | ok parts =>
      rw [hparts] at h
      refine ⟨parts, (mapM_eq_ok_iff.mp hparts).imp fun _ _ => partAt_eq_ok_iff.mp, ?_⟩
      exact (Except.ok.inj h).symm

/-- **The table of packed headers names them exactly if their names are plain.** Headers that are
packed have an entry each, in order, with the name it is packed under. The file that is written has
a table, and as C source its rows are the bytes of these names and the offsets of the entries, in
order, exactly if no name has a quote, a backslash, a line feed or a carriage return in it: names
are written as they are, with no escapes. -/
theorem table_denotes_iff {t : FileTree} {root : String} {headers : List String}
    {packed : PackedHeaders} (h : packHeaders t root headers = .ok packed) :
    headers.map (packedPath? root) = packed.entries.map (fun e => some e.path) ∧
      (table? packed.render = some (packed.entries.map fun e => (Text.toUtf8 e.path, e.offset)) ↔
        ∀ e ∈ packed.entries, ∀ c ∈ e.path.toList, c ≠ '"' ∧ c ≠ '\\' ∧ c ≠ '\n' ∧ c ≠ '\r') := by
  obtain ⟨parts, hparts, rfl⟩ := exists_parts_of_packHeaders h
  constructor
  · have hpaths : headers.map (packedPath? root) = parts.map fun part => some part.1 := by
      rw [← List.forall₂_eq_eq_eq, List.forall₂_map_left_iff, List.forall₂_map_right_iff]
      exact hparts.imp fun _ _ hpart => hpart.1
    have hentries : (pushAll {} parts).entries.map (·.path) = parts.map (·.1) :=
      map_path_pushAll {} parts
    have hsome := congrArg (List.map some) hentries
    rw [List.map_map, List.map_map] at hsome
    exact hpaths.trans hsome.symm
  · have hiff := table?_eq_iff (pushAll {} parts)
    simp only [IsPlainName, isPlain_iff] at hiff
    exact hiff

namespace Sample

/-- Headers of which one has a quote in its name. -/
def quotedShelf : FileTree where
  items := [(["inc"], .directory), (["inc", "a.h"], .file [0x61] false), (["inc", "b"], .directory),
    (["inc", "b", "c.h"], .file [] false), (["inc", "x\"y.h"], .file [] false)]

def plainHeaders : PackedHeaders :=
  ⟨[⟨"__include__/a.h", 0⟩, ⟨"__include__/b/c.h", 2⟩], [0x61, 0, 0]⟩

theorem table_denotes_plain : ∃ packed,
    packHeaders quotedShelf "inc" ["inc/a.h", "inc/b/c.h"] = .ok packed ∧
      table? packed.render = some [(Text.toUtf8 "__include__/a.h", 0),
        (Text.toUtf8 "__include__/b/c.h", 2)] := by
  have hpacked : packHeaders quotedShelf "inc" ["inc/a.h", "inc/b/c.h"] =
      .ok plainHeaders := by decide +kernel
  have hall : (plainHeaders.entries.all fun e => e.path.toList.all isPlain) = true := by
    decide +kernel
  refine ⟨_, hpacked, (table_denotes_iff hpacked).2.mpr fun e he c hc => isPlain_iff.mp ?_⟩
  exact List.all_eq_true.mp (List.all_eq_true.mp hall e he) c hc

/-- A name with a quote: its literal ends there. -/
theorem table_quoted : ∃ packed,
    packHeaders quotedShelf "inc" ["inc/x\"y.h"] = .ok packed ∧
      packed.entries = [⟨"__include__/x\"y.h", 0⟩] ∧
      table? packed.render ≠ some [(Text.toUtf8 "__include__/x\"y.h", 0)] := by
  have hpacked : packHeaders quotedShelf "inc" ["inc/x\"y.h"] =
      .ok ⟨[⟨"__include__/x\"y.h", 0⟩], [0]⟩ := by decide +kernel
  refine ⟨_, hpacked, rfl, fun htable => ?_⟩
  have hplain := (table?_eq_iff _).mp htable _ List.mem_cons_self '"' (by decide)
  exact absurd hplain (by decide)

end Sample

end BuildPlan.Pack
