import BuildPlan.Proofs.CSource
import BuildPlan.Proofs.Readable
import BuildPlan.Scenario.Driver

/-!
# The data of a driver

A driver carries texts as string literals and as arrays of character constants. A C compiler reads a
literal as the UTF-8 bytes of its text (`reads_cLiteral`), whatever characters follow an escape, and
an array as the same bytes and a NUL (`yields_array`). The look-up of a driver allocates, copies and
reports as many bytes as that (`yields_lookup`).
-/

namespace BuildPlan

open Text (cByte cLiteral cByteArray cByteConstant toUtf8 runs octalDigit unlines)

namespace CSource

/-! ## String literals -/

theorem octalDigit_cases {n : Nat} (hn : n < 8) :
    simple? (octalDigit n) = none ∧ octalDigit? (octalDigit n) = some n := by
  have hall : ∀ n < 8, simple? (octalDigit n) = none ∧
      octalDigit? (octalDigit n) = some n := by decide
  exact hall n hn

theorem run_octal {high mid low : Nat} (hhigh : high < 8) (hmid : mid < 8) (hlow : low < 8)
    {b : UInt8} (hb : 64 * high + 8 * mid + low = b.toNat) (q : Quote) (bytes : Bytes) :
    run (.literal q bytes .outside) ['\\', octalDigit high, octalDigit mid, octalDigit low] =
      some ([], .literal q (bytes ++ [b]) .outside) := by
  obtain ⟨hsimple, hhigh⟩ := octalDigit_cases hhigh
  obtain ⟨-, hmid⟩ := octalDigit_cases hmid
  obtain ⟨-, hlow⟩ := octalDigit_cases hlow
  have hvalue : 8 * (8 * high + mid) + low = b.toNat := by omega
  have hbyte : byte? (8 * (8 * high + mid) + low) = some b := by
    rw [byte?, hvalue, if_pos b.toNat_lt, UInt8.ofNat_toNat]
  simp [run, State.take, inLiteral, plain_backslash, startEscape, hsimple, hhigh, hmid, hlow, hbyte]

theorem run_cByte (bytes : Bytes) (b : UInt8) :
    run (.literal .double bytes .outside) (cByte b) =
      some ([], .literal .double (bytes ++ [b]) .outside) := by
  have hb := b.toNat_lt
  rw [cByte]
  split_ifs with hplain
  · obtain ⟨hlow, hhigh, hquote, hslash⟩ := hplain
    have hhigh := UInt8.lt_iff_toNat_lt.mp hhigh
    have hlow := UInt8.le_iff_toNat_le.mp hlow
    have hquotes : ∀ n < 0x7F, n ≠ 0x22 → n ≠ 0x5C →
        Char.ofNat n ≠ '"' ∧ Char.ofNat n ≠ '\\' := by decide
    have hprinted : ∀ n < 0x7F, 0x20 ≤ n → Char.ofNat n ≠ '\n' ∧ Char.ofNat n ≠ '\r' ∧
        String.utf8EncodeChar (Char.ofNat n) = [UInt8.ofNat n] := by decide
    obtain ⟨hquote, hslash⟩ := hquotes b.toNat hhigh (fun h => hquote (UInt8.toNat_inj.mp h))
      (fun h => hslash (UInt8.toNat_inj.mp h))
    obtain ⟨hline, hreturn, hencode⟩ := hprinted b.toNat hhigh hlow
    have hstep := plain_of_ne (q := .double) hquote hline hreturn hslash bytes
    rw [hencode, UInt8.ofNat_toNat] at hstep
    rw [run, State.take, inLiteral, hstep]
    rfl
  · exact run_octal (by omega) (by omega) (by omega) (by omega) .double bytes

theorem run_flatMap_cByte (bytes more : Bytes) :
    run (.literal .double bytes .outside) (more.flatMap cByte) =
      some ([], .literal .double (bytes ++ more) .outside) := by
  induction more generalizing bytes with
  | nil => simp [run]
  | cons b more ih =>
    rw [List.flatMap_cons, run_append, run_cByte, Option.bind_some, ih]
    simp

theorem newline_notMem_cByte (b : UInt8) : '\n' ∉ cByte b := by
  have hb := b.toNat_lt
  have hall : ∀ n < 8, octalDigit n ≠ '\n' := by decide
  have hplain : ∀ n < 0x7F, 0x20 ≤ n → Char.ofNat n ≠ '\n' := by decide
  rw [cByte]
  split_ifs with h
  · simpa using (hplain _ (UInt8.lt_iff_toNat_lt.mp h.2.1) (UInt8.le_iff_toNat_le.mp h.1)).symm
  · simp [(hall (b.toNat / 64) (by omega)).symm, (hall (b.toNat / 8 % 8) (by omega)).symm,
      (hall (b.toNat % 8) (by omega)).symm]

/-- **A string literal has the bytes of its text.** -/
theorem reads_cLiteral (s : String) : Reads (cLiteral s) [.string (toUtf8 s)] := by
  have htext : (cLiteral s).toList = '"' :: ((toUtf8 s).flatMap cByte ++ ['"']) := by
    rw [cLiteral, String.toList_ofList, List.cons_append]
  refine ⟨splice_of_notMem ?_, ?_⟩
  · rw [htext]
    simp [newline_notMem_cByte]
  · have hopen : State.between.take '"' = some ([], .literal .double [] .outside) := rfl
    rw [htext, run_cons hopen, run_append, run_flatMap_cByte]
    rfl

/-! ## Arrays -/

theorem reads_cByteConstant (b : UInt8) :
    Reads (String.ofList (cByteConstant b)) [.constant b, .sign ','] := by
  have hb := b.toNat_lt
  have hall : ∀ n < 16,
      Text.hexDigitValue? (Nat.digitChar n) = some n ∧ Nat.digitChar n ≠ '\n' := by decide
  obtain ⟨hhigh, hhigh'⟩ := hall (b.toNat / 16) (by omega)
  obtain ⟨hlow, hlow'⟩ := hall (b.toNat % 16) (by omega)
  refine ⟨splice_of_notMem ?_, ?_⟩
  · simp [cByteConstant, cByteConstant.hexDigits, hhigh'.symm, hlow'.symm]
  · have hopen : State.between.take '\x27' = some ([], .literal .single [] .outside) := rfl
    have hslash : (State.literal .single [] .outside).take '\\' =
        some ([], .literal .single [] .started) := rfl
    have hx : (State.literal .single [] .started).take 'x' =
        some ([], .literal .single [] (.hex none)) := rfl
    have hfirst : (State.literal .single [] (.hex none)).take (Nat.digitChar (b.toNat / 16)) =
        some ([], .literal .single [] (.hex (some (b.toNat / 16)))) := by
      simp [State.take, inLiteral, hhigh]
    have hsecond : (State.literal .single [] (.hex (some (b.toNat / 16)))).take
        (Nat.digitChar (b.toNat % 16)) = some ([], .literal .single [] (.hex (some b.toNat))) := by
      simp [State.take, inLiteral, hlow, Nat.div_add_mod]
    have hclose : (State.literal .single [] (.hex (some b.toNat))).take '\x27' =
        some ([.constant b], .between) := by
      show endEscape .single [] b.toNat '\x27' = _
      rw [endEscape, byte?, if_pos hb, UInt8.ofNat_toNat]
      rfl
    have hcomma : State.between.take ',' = some ([.sign ','], .between) := rfl
    have htext : (String.ofList (cByteConstant b)).toList = ['\x27', '\\', 'x',
        Nat.digitChar (b.toNat / 16), Nat.digitChar (b.toNat % 16), '\x27', ','] :=
      String.toList_ofList
    rw [htext, run_cons hopen, run_cons hslash, run_cons hx, run_cons hfirst, run_cons hsecond,
      run_cons hclose, run_cons hcomma]
    rfl

theorem reads_flatMap_cByteConstant (bytes : Bytes) :
    Reads (String.ofList (bytes.flatMap cByteConstant))
      (bytes.flatMap fun b => [.constant b, .sign ',']) := by
  induction bytes with
  | nil => exact reads_empty
  | cons b bytes ih =>
    rw [List.flatMap_cons, String.ofList_append]
    exact (reads_cByteConstant b).append ih

theorem reads_blanks {blanks : String} (h : ∀ c ∈ blanks.toList, c = ' ') : Reads blanks [] := by
  have hrun : ∀ cs : List Char, (∀ c ∈ cs, c = ' ') → run .between cs = some ([], .between) := by
    intro cs hcs
    induction cs with
    | nil => rfl
    | cons c cs ih =>
      obtain ⟨rfl, hrest⟩ := List.forall_mem_cons.mp hcs
      have hblank : State.between.take ' ' = some ([], .between) := rfl
      rw [run_cons hblank, ih hrest]
      rfl
  refine ⟨splice_of_notMem fun hline => ?_, hrun _ h⟩
  exact absurd (h _ hline) (by decide)

/-- What stands between the braces of an array. -/
def arrayBody (indent contents : String) : String :=
  "\n" ++ unlines ((runs 15 (toUtf8 contents)).map fun run =>
    indent ++ "  " ++ String.ofList (run.flatMap cByteConstant)) ++ indent ++ "  '\\0'\n" ++ indent

theorem unlines_cByteArray (indent name contents : String) :
    unlines (cByteArray indent name contents) =
      indent ++ ("static char " ++ (name ++ ("[] = \x7b" ++
        (arrayBody indent contents ++ "\x7d;\n")))) := by
  rw [cByteArray, Text.unlines_append, Text.unlines_append, arrayBody]
  simp [unlines, ← String.toList_inj]

theorem reads_arrayBody {indent : String} (h : ∀ c ∈ indent.toList, c = ' ') (contents : String) :
    Reads (arrayBody indent contents) (constantTokens (toUtf8 contents) 0) := by
  have hindent := reads_blanks h
  have hrows : ∀ rows : List Bytes, Reads (unlines (rows.map fun row =>
      indent ++ "  " ++ String.ofList (row.flatMap cByteConstant)))
      (rows.flatten.flatMap fun b => [.constant b, .sign ',']) := by
    intro rows
    induction rows with
    | nil => exact reads_empty
    | cons row rows ih =>
      have htwo : Reads "  " [] := by decide
      have hline : Reads "\n" [] := by decide
      have hrow := (((hindent.append htwo).append (reads_flatMap_cByteConstant row)).append
        hline).append ih
      simpa [unlines] using hrow
  have hstart : Reads "\n" [] := by decide
  have hend : Reads "  '\\0'\n" [.constant 0] := by decide
  have hbody := (((hstart.append (hrows (runs 15 (toUtf8 contents)))).append hindent).append
    hend).append hindent
  rw [Text.flatten_runs] at hbody
  simpa [arrayBody, constantTokens] using hbody

/-- The name of an array of characters and what it holds. -/
def array : Parser (List Char × Bytes) := do
  expect "static char "
  let name ← word
  expect "[] = \x7b"
  let bytes ← constants
  expect "\x7d;"
  return (name, bytes)

/-- **An array has the bytes of its text and a NUL.** -/
theorem yields_array {indent name : String} (hindent : ∀ c ∈ indent.toList, c = ' ')
    (hne : name ≠ "") (hname : ∀ c ∈ name.toList, isLetter c = true) (contents : String) :
    Yields array (unlines (cByteArray indent name contents))
      (name.toList, toUtf8 contents ++ [0]) := by
  have hclose : Yields (expect "\x7d;" >>= fun _ => pure (name.toList, toUtf8 contents ++ [0]))
      "\x7d;\n" (name.toList, toUtf8 contents ++ [0]) :=
    StandsFor.last (standsFor_ofList (by decide))
  rw [unlines_cByteArray]
  apply Yields.of_blanks (reads_blanks hindent)
  apply StandsFor.then (standsFor_ofList (by decide))
  refine yields_word hne hname ?_ (Opens.append (by decide) _)
  apply StandsFor.then (standsFor_ofList (by decide))
  exact yields_constants (reads_arrayBody hindent contents) hclose (by decide) (by decide)

end CSource

/-! ## The look-up -/

namespace Scenario.Driver

open CSource

/-- What the look-up of a driver does for a file. -/
structure Branch where
  /-- The name that it answers to. -/
  path : Bytes
  /-- The name of the array, and what it holds. -/
  array : List Char × Bytes
  allocated : Nat
  /-- The name of the array that is copied, and how many bytes of it. -/
  copied : List Char × Nat
  /-- The size that is reported. -/
  size : Nat
  deriving DecidableEq, Repr

def branch : Parser Branch := do
  expect "if (strcmp("
  let path ← literal
  expect ", filename) == 0) \x7b"
  let array ← CSource.array
  expect "*contents = malloc("
  let allocated ← number
  expect "); if (!*contents) return false; memcpy(*contents, "
  let source ← word
  expect ", "
  let copied ← number
  expect "); *size = "
  let size ← number
  expect "; return true; \x7d"
  return ⟨path, array, allocated, (source, copied), size⟩

def branches : Nat → Parser (List Branch)
  | 0 => pure []
  | n + 1 => do
    let first ← branch
    let rest ← branches n
    return first :: rest

def lookup (n : Nat) : Parser (List Branch) := do
  expect "static bool get_file_by_name(const char* filename, char** contents, size_t* size) \x7b"
  let found ← branches n
  expect (unlines diskLines)
  return found

/-- What a look-up should do for the file at a position. -/
def branchOf (index : Nat) (file : TrackedFile) : Branch :=
  let bytes := toUtf8 file.contents
  { path := toUtf8 file.path
    array := ((initialName index).toList, bytes ++ [0])
    allocated := bytes.length + 1
    copied := ((initialName index).toList, bytes.length + 1)
    size := bytes.length }

theorem length_toUtf8 (s : String) : (toUtf8 s).length = Text.utf8Length s := by
  simp [toUtf8, Text.utf8Length]

theorem initialName_ne (index : Nat) : initialName index ≠ "" := by
  intro h
  have hlist := congrArg String.toList h
  rw [initialName, String.toList_append] at hlist
  cases hlist

theorem isLetter_initialName {index : Nat} {c : Char} (h : c ∈ (initialName index).toList) :
    isLetter c = true := by
  rw [initialName, String.toList_append, Nat.toList_repr, List.mem_append] at h
  rcases h with h | h
  · exact List.all_eq_true.mp (by decide : "initial_".toList.all isLetter = true) c h
  · exact isLetter_of_isDigit (Text.isDigit_of_mem_toDigits h)

theorem unlines_fileLines (index : Nat) (file : TrackedFile) :
    unlines (fileLines index file) =
      "  if (strcmp(" ++ (cLiteral file.path ++ (", filename) == 0) \x7b\n" ++
        (unlines (cByteArray "    " (initialName index) file.contents) ++
          ("    *contents = malloc(" ++ (Nat.repr (Text.utf8Length file.contents + 1) ++
            (");\n    if (!*contents) return false;\n    memcpy(*contents, " ++
              (initialName index ++ (", " ++ (Nat.repr (Text.utf8Length file.contents + 1) ++
                (");\n    *size = " ++ (Nat.repr (Text.utf8Length file.contents) ++
                  ";\n    return true;\n  \x7d\n\n"))))))))))) := by
  rw [fileLines, Text.unlines_append, Text.unlines_append]
  simp [unlines, ← String.toList_inj]

theorem yields_branch (index : Nat) (file : TrackedFile) :
    Yields branch (unlines (fileLines index file)) (branchOf index file) := by
  rw [unlines_fileLines, ← length_toUtf8]
  apply StandsFor.then (standsFor_ofList (by decide))
  refine yields_literal (reads_cLiteral file.path) ?_ (Opens.append (by decide) _)
  apply StandsFor.then (standsFor_ofList (by decide))
  refine Yields.bind (yields_array (by simp) (initialName_ne index)
    (fun c => isLetter_initialName) file.contents) ?_
  apply StandsFor.then (standsFor_ofList (by decide))
  refine yields_number _ ?_ (Opens.append (by decide) _)
  apply StandsFor.then (standsFor_ofList (by decide))
  refine yields_word (initialName_ne index) (fun c => isLetter_initialName) ?_
    (Opens.append (by decide) _)
  apply StandsFor.then (standsFor_ofList (by decide))
  refine yields_number _ ?_ (Opens.append (by decide) _)
  apply StandsFor.then (standsFor_ofList (by decide))
  refine yields_number _ ?_ (by decide)
  exact StandsFor.last (standsFor_ofList (by decide))

theorem yields_branches (index : Nat) (files : List TrackedFile) :
    Yields (branches files.length) (unlines (filesFrom index files))
      (files.mapIdx fun i file => branchOf (index + i) file) := by
  induction files generalizing index with
  | nil => exact yields_pure []
  | cons file files ih =>
    have hrest : Yields (branches files.length >>= fun rest => pure (branchOf index file :: rest))
        (unlines (filesFrom (index + 1) files) ++ "")
        (branchOf index file :: files.mapIdx fun i file => branchOf (index + 1 + i) file) :=
      (ih (index + 1)).bind (yields_pure _)
    have hall : Yields (branches (files.length + 1))
        (unlines (fileLines index file) ++ (unlines (filesFrom (index + 1) files) ++ ""))
        (branchOf index file :: files.mapIdx fun i file => branchOf (index + 1 + i) file) :=
      (yields_branch index file).bind hrest
    rw [filesFrom, Text.unlines_append, List.mapIdx_cons]
    simp only [Nat.add_zero, Nat.add_assoc, Nat.add_comm 1, String.append_empty] at hall ⊢
    exact hall

theorem settled_diskLines : Settled (unlines diskLines) := by
  rw [diskLines]
  repeat refine settled_unlines_cons (by decide) ?_
  exact settled_unlines_nil

theorem yields_lookup (files : List TrackedFile) :
    Yields (lookup files.length) (unlines (lookupLines files)) (files.mapIdx branchOf) := by
  have hfiles := yields_branches 0 files
  simp only [Nat.zero_add] at hfiles
  have hdisk : Yields (expect (unlines diskLines) >>= fun _ => pure (files.mapIdx branchOf))
      (unlines diskLines) (files.mapIdx branchOf) :=
    StandsFor.last ⟨settled_diskLines, rfl⟩
  rw [lookupLines, Text.unlines_append, Text.unlines_append, String.append_assoc]
  exact (standsFor_line (by decide)).then (hfiles.bind hdisk)

/-- **The data of a driver is what it was written for.** As C source, a string literal is one token
with the UTF-8 bytes of its text. An array has those bytes and one NUL, whatever its name and the
blanks in front of it. And the look-up has a branch for each file, in order, that compares with the
bytes of its path, allocates as many bytes as the array of its contents has, copies all of that
array and reports one byte less. -/
theorem data_denotes :
    (∀ s, tokens? (cLiteral s) = some [.string (toUtf8 s)]) ∧
    (∀ indent name contents : String, (∀ c ∈ indent.toList, c = ' ') → name ≠ "" →
      (∀ c ∈ name.toList, isLetter c = true) →
      parse? array (unlines (cByteArray indent name contents)) =
        some (name.toList, toUtf8 contents ++ [0])) ∧
    ∀ files, parse? (lookup files.length) (unlines (lookupLines files)) =
      some (files.mapIdx branchOf) := by
  refine ⟨fun s => (reads_cLiteral s).tokens?_eq, ?_, fun files => (yields_lookup files).parse?_eq⟩
  intro indent name contents hindent hne hname
  exact (yields_array hindent hne hname contents).parse?_eq

theorem data_denotes_accent :
    parse? array (unlines (cByteArray "    " "contents_step0" "\"é\" 1\n")) =
      some ("contents_step0".toList, [0x22, 0xC3, 0xA9, 0x22, 0x20, 0x31, 0x0A, 0]) := by
  obtain ⟨-, harray, -⟩ := data_denotes
  exact harray "    " "contents_step0" "\"é\" 1\n" (by simp) (by decide)
    (List.all_eq_true.mp (by decide))

end Scenario.Driver

end BuildPlan
