import BuildPlan.Proofs.Json
import BuildPlan.Text.CLiteral
import BuildPlan.Text.Split

/-!
# C source

The rules by which a C compiler turns source text into tokens, as far as data needs them: lines that
end with a backslash are joined, comments count as blanks, and in a literal an escape is as long as
C has it: up to three octal digits, hexadecimal digits without a limit. There are no trigraphs, and
source and program have UTF-8 for their characters. Operators come apart into their signs, which no
literal depends on.

Text that leaves the reader between two tokens can be read piece by piece (`Reads.append`). What a
parser of tokens makes of a text that was put together of such pieces is told by what it makes of
each piece (`Yields.bind`).
-/

namespace BuildPlan.CSource

open Text (hexDigitValue?)

/-! ## Tokens -/

inductive Token where
  /-- A name, a keyword or a number. -/
  | word (text : List Char)
  /-- A string literal, by its bytes, without the NUL behind them. -/
  | string (bytes : Bytes)
  /-- A character constant of one byte. -/
  | constant (byte : UInt8)
  | sign (c : Char)
  deriving DecidableEq, Repr

/-- The quotes around a literal. -/
inductive Quote where
  | double
  | single
  deriving DecidableEq, Repr

def Quote.char : Quote → Char
  | double => '"'
  | single => '\x27'

/-- The literal with those quotes and bytes. -/
def Quote.token? : Quote → Bytes → Option Token
  | double, bytes => some (.string bytes)
  | single, [b] => some (.constant b)
  | single, _ => none

/-- Where the reader is in an escape. -/
inductive Escape where
  /-- In none. -/
  | outside
  /-- Behind its backslash. -/
  | started
  /-- Behind octal digits, with so many that may still come. -/
  | octal (left value : Nat)
  /-- Behind hexadecimal digits, if there was one yet. -/
  | hex (value : Option Nat)
  /-- In a universal character name, with so many digits still to come. -/
  | universal (left value : Nat)
  deriving DecidableEq, Repr

/-- Where the reader is. -/
inductive State where
  | between
  | word (text : List Char)
  /-- Behind a slash, which may start a comment. -/
  | slash
  /-- In a comment up to the end of the line. -/
  | comment
  /-- In a comment up to `*/`, behind its star or not. -/
  | block (starred : Bool)
  | literal (quote : Quote) (bytes : Bytes) (escape : Escape)
  deriving DecidableEq, Repr

/-! ## Characters -/

def isSpace (c : Char) : Bool :=
  c == ' ' || c == '\t' || c == '\n' || c == '\x0B' || c == '\x0C' || c == '\r'

def isLetter (c : Char) : Bool :=
  c.isAlphanum || c == '_'

def quote? (c : Char) : Option Quote :=
  if c = '"' then some .double else if c = '\x27' then some .single else none

/-- The words that make another kind of literal of one that follows. -/
def encodings : List (List Char) :=
  [['L'], ['u'], ['U'], ['u', '8']]

/-- The byte of an escape of a single character. -/
def simple? : Char → Option UInt8
  | '\x27' => some 0x27
  | '"' => some 0x22
  | '?' => some 0x3F
  | '\\' => some 0x5C
  | 'a' => some 0x07
  | 'b' => some 0x08
  | 'f' => some 0x0C
  | 'n' => some 0x0A
  | 'r' => some 0x0D
  | 't' => some 0x09
  | 'v' => some 0x0B
  | _ => none

def octalDigit? (c : Char) : Option Nat :=
  if '0' ≤ c ∧ c ≤ '7' then some (c.toNat - 48) else none

def byte? (n : Nat) : Option UInt8 :=
  if n < 256 then some (UInt8.ofNat n) else none

/-- The bytes of a universal character name: it is none of a character that can be written plainly
anywhere, and none of a surrogate. -/
def universal? (n : Nat) : Option Bytes :=
  if n.isValidChar ∧ (0xA0 ≤ n ∨ n = 0x24 ∨ n = 0x40 ∨ n = 0x60) then
    some (String.utf8EncodeChar (Char.ofNat n))
  else none

/-! ## The reader -/

/-- What a character gives: tokens, and where the reader is then; none where the text is no C. -/
abbrev Step := Option (List Token × State)

/-- The step gives a token before all that it gives. -/
def Step.emit (t : Token) (s : Step) : Step :=
  s.map fun r => (t :: r.1, r.2)

/-- A character of a literal that is not in an escape. A line that ends inside is an error, and
implementations differ over a carriage return. -/
def plain (q : Quote) (bytes : Bytes) (c : Char) : Step :=
  if c = q.char then (q.token? bytes).map fun t => ([t], .between)
  else if c = '\n' ∨ c = '\r' then none
  else if c = '\\' then some ([], .literal q bytes .started)
  else some ([], .literal q (bytes ++ String.utf8EncodeChar c) .outside)

def startEscape (q : Quote) (bytes : Bytes) (c : Char) : Step :=
  match simple? c, octalDigit? c with
  | some b, _ => some ([], .literal q (bytes ++ [b]) .outside)
  | none, some d => some ([], .literal q bytes (.octal 2 d))
  | none, none =>
    if c = 'x' then some ([], .literal q bytes (.hex none))
    else if c = 'u' then some ([], .literal q bytes (.universal 4 0))
    else if c = 'U' then some ([], .literal q bytes (.universal 8 0))
    else none

/-- The value of an escape that ends before a character. -/
def endEscape (q : Quote) (bytes : Bytes) (value : Nat) (c : Char) : Step :=
  (byte? value).bind fun b => plain q (bytes ++ [b]) c

def inLiteral (q : Quote) (bytes : Bytes) (c : Char) : Escape → Step
  | .outside => plain q bytes c
  | .started => startEscape q bytes c
  | .octal left value =>
    match octalDigit? c with
    | some d =>
      if left = 1 then
        (byte? (8 * value + d)).map fun b => ([], .literal q (bytes ++ [b]) .outside)
      else some ([], .literal q bytes (.octal (left - 1) (8 * value + d)))
    | none => endEscape q bytes value c
  | .hex value =>
    match hexDigitValue? c, value with
    | some d, _ => some ([], .literal q bytes (.hex (some (16 * value.getD 0 + d))))
    | none, some n => endEscape q bytes n c
    | none, none => none
  | .universal left value =>
    (hexDigitValue? c).bind fun d =>
      if left ≤ 1 then
        (universal? (16 * value + d)).map fun more => ([], .literal q (bytes ++ more) .outside)
      else some ([], .literal q bytes (.universal (left - 1) (16 * value + d)))

def nextToken (c : Char) : Step :=
  if isSpace c then some ([], .between)
  else if isLetter c then some ([], .word [c])
  else if c = '/' then some ([], .slash)
  else if c = '\\' then none
  else
    match quote? c with
    | some q => some ([], .literal q [] .outside)
    | none => some ([.sign c], .between)

def State.take (c : Char) : State → Step
  | .between => nextToken c
  | .word w =>
    if isLetter c then some ([], .word (w ++ [c]))
    else if (quote? c).isSome ∧ w ∈ encodings then none
    else (nextToken c).emit (.word w)
  | .slash =>
    if c = '/' then some ([], .comment)
    else if c = '*' then some ([], .block false)
    else (nextToken c).emit (.sign '/')
  | .comment => some ([], if c = '\n' then .between else .comment)
  | .block starred => some ([], if starred ∧ c = '/' then .between else .block (c == '*'))
  | .literal q bytes e => inLiteral q bytes c e

/-- Reads a text from where the reader is. -/
def run (st : State) : List Char → Step
  | [] => some ([], st)
  | c :: cs => (st.take c).bind fun r => (run r.2 cs).map fun s => (r.1 ++ s.1, s.2)

def State.finish : State → Option (List Token)
  | .between | .comment => some []
  | .word w => some [.word w]
  | .slash => some [.sign '/']
  | .block _ | .literal _ _ _ => none

/-- A text with the lines joined that end with a backslash. -/
def splice : List Char → List Char
  | '\\' :: '\n' :: cs => splice cs
  | c :: cs => c :: splice cs
  | [] => []

/-- The tokens of the characters of a source text. -/
def charTokens? (cs : List Char) : Option (List Token) :=
  (run .between (splice cs)).bind fun r => r.2.finish.map (r.1 ++ ·)

def tokens? (source : String) : Option (List Token) :=
  charTokens? source.toList

/-! ### Reading a text piece by piece -/

theorem run_append (st : State) (a b : List Char) :
    run st (a ++ b) = (run st a).bind fun r => (run r.2 b).map fun s => (r.1 ++ s.1, s.2) := by
  induction a generalizing st with
  | nil => simp [run]
  | cons c a ih =>
    rw [List.cons_append, run, run]
    cases st.take c with
    | none => rfl
    | some r =>
      rw [Option.bind_some, Option.bind_some, ih]
      cases run r.2 a with
      | none => rfl
      | some s => cases hrest : run s.2 b <;> simp [hrest]

theorem run_cons {st st' : State} {c : Char} {ts : List Token} (h : st.take c = some (ts, st'))
    (cs : List Char) : run st (c :: cs) = (run st' cs).map fun s => (ts ++ s.1, s.2) := by
  rw [run, h, Option.bind_some]

theorem run_cons_eq_some {st st' : State} {c : Char} {cs : List Char} {ts : List Token}
    (h : run st (c :: cs) = some (ts, st')) : ∃ us st₁ vs, st.take c = some (us, st₁) ∧
      run st₁ cs = some (vs, st') ∧ ts = us ++ vs := by
  obtain ⟨r, hr, hmap⟩ := Option.bind_eq_some_iff.mp h
  obtain ⟨s, hs, hpair⟩ := Option.map_eq_some_iff.mp hmap
  obtain ⟨rfl, rfl⟩ := Prod.mk.inj hpair
  exact ⟨r.1, r.2, s.1, hr, hs, rfl⟩

theorem run_append_eq_some {st st' : State} {a b : List Char} {ts : List Token}
    (h : run st (a ++ b) = some (ts, st')) : ∃ us st₁ vs, run st a = some (us, st₁) ∧
      run st₁ b = some (vs, st') ∧ ts = us ++ vs := by
  rw [run_append] at h
  obtain ⟨r, hr, hmap⟩ := Option.bind_eq_some_iff.mp h
  obtain ⟨s, hs, hpair⟩ := Option.map_eq_some_iff.mp hmap
  obtain ⟨rfl, rfl⟩ := Prod.mk.inj hpair
  exact ⟨r.1, r.2, s.1, hr, hs, rfl⟩

/-- Joining lines acts on either side of a place, unless a line that is joined ends there. -/
theorem splice_append {a b : List Char} (h : a.getLast? ≠ some '\\' ∨ b.head? ≠ some '\n') :
    splice (a ++ b) = splice a ++ splice b := by
  induction a using splice.induct with
  | case1 a ih =>
    rw [List.cons_append, List.cons_append, splice, splice]
    apply ih
    refine h.imp_left fun ha hlast => ha ?_
    rw [List.getLast?_cons_cons, List.getLast?_cons, hlast]
    rfl
  | case2 c a hno ih =>
    have hb : ∀ cs, c = '\\' → a ++ b = '\n' :: cs → False := by
      rintro cs rfl hcs
      cases a with
      | nil =>
        rcases h with ha | hb
        · exact ha rfl
        · exact hb (by rw [List.nil_append] at hcs; rw [hcs]; rfl)
      | cons d a => exact hno a rfl (by rw [(List.cons.inj hcs).1])
    rw [List.cons_append, splice, splice, ih, List.cons_append]
    · refine h.imp_left fun ha hlast => ha ?_
      rw [List.getLast?_cons, hlast]
      rfl
    · exact hno
    · exact hb
  | case3 => rfl

theorem plain_backslash (q : Quote) (bytes : Bytes) :
    plain q bytes '\\' = some ([], .literal q bytes .started) := by
  cases q <;> rfl

theorem plain_of_ne {q : Quote} {c : Char} (hquote : c ≠ q.char) (hline : c ≠ '\n')
    (hreturn : c ≠ '\r') (hslash : c ≠ '\\') (bytes : Bytes) :
    plain q bytes c = some ([], .literal q (bytes ++ String.utf8EncodeChar c) .outside) := by
  rw [plain, if_neg hquote, if_neg (not_or.mpr ⟨hline, hreturn⟩), if_neg hslash]

/-- Behind a backslash the reader is never between two tokens. -/
theorem take_backslash {st st' : State} {ts : List Token} (h : st.take '\\' = some (ts, st')) :
    st' ≠ .between := by
  have hend : ∀ {q bytes value}, endEscape q bytes value '\\' = some (ts, st') →
      st' ≠ .between := by
    intro q bytes value hend
    rw [endEscape] at hend
    obtain ⟨b, -, hb⟩ := Option.bind_eq_some_iff.mp hend
    rw [plain_backslash] at hb
    rintro rfl
    cases hb
  rintro rfl
  cases st with
  | between => cases h
  | word w => cases h
  | slash => cases h
  | comment => cases h
  | block starred => simp [State.take] at h
  | literal q bytes e =>
    cases e with
    | outside =>
      rw [State.take, inLiteral, plain_backslash] at h
      cases h
    | started => cases h
    | octal left value => exact hend h rfl
    | hex value =>
      cases value with
      | none => cases h
      | some n => exact hend h rfl
    | universal left value => cases h

/-- The text has those tokens, and leaves the reader between two. -/
def Reads (s : String) (ts : List Token) : Prop :=
  splice s.toList = s.toList ∧ run .between s.toList = some (ts, .between)

instance (s : String) (ts : List Token) : Decidable (Reads s ts) :=
  inferInstanceAs (Decidable (_ ∧ _))

section Pieces

variable {s t : String} {ts us : List Token}

theorem Reads.getLast?_ne (h : Reads s ts) : s.toList.getLast? ≠ some '\\' := by
  intro hlast
  obtain ⟨front, hfront⟩ := List.getLast?_eq_some_iff.mp hlast
  have hrun := h.2
  rw [hfront] at hrun
  obtain ⟨us, st, vs, -, hlast, -⟩ := run_append_eq_some hrun
  obtain ⟨us', st', vs', htake, hend, -⟩ := run_cons_eq_some hlast
  obtain ⟨-, rfl⟩ := Prod.mk.inj (Option.some.inj hend)
  exact take_backslash htake rfl

theorem reads_empty : Reads "" [] := by
  decide

theorem Reads.append (hs : Reads s ts) (ht : Reads t us) : Reads (s ++ t) (ts ++ us) := by
  refine ⟨?_, ?_⟩
  · rw [String.toList_append, splice_append (.inl hs.getLast?_ne), hs.1, ht.1]
  · rw [String.toList_append, run_append, hs.2, Option.bind_some, ht.2]
    rfl

theorem Reads.tokens?_eq (h : Reads s ts) : tokens? s = some ts := by
  rw [tokens?, charTokens?, h.1, h.2]
  simp [State.finish]

end Pieces

/-! ### Pieces that data is made of -/

theorem splice_of_notMem {cs : List Char} (h : '\n' ∉ cs) : splice cs = cs := by
  induction cs with
  | nil => rfl
  | cons c cs ih =>
    have hcs : '\n' ∉ cs := fun hmem => h (List.mem_cons_of_mem c hmem)
    rw [splice, ih hcs]
    rintro cs' - rfl
    exact hcs List.mem_cons_self

theorem splice_of_backslash_notMem {cs : List Char} (h : '\\' ∉ cs) : splice cs = cs := by
  induction cs with
  | nil => rfl
  | cons c cs ih =>
    rw [splice, ih fun hmem => h (List.mem_cons_of_mem c hmem)]
    rintro cs' rfl
    exact absurd List.mem_cons_self h

/-- A text starts with a character of that kind. -/
def Opens (kind : Char → Bool) (s : String) : Prop :=
  s.toList.head?.any kind = true

instance (kind : Char → Bool) (s : String) : Decidable (Opens kind s) :=
  inferInstanceAs (Decidable (_ = _))

theorem Opens.append {kind : Char → Bool} {s : String} (h : Opens kind s) (t : String) :
    Opens kind (s ++ t) := by
  rw [Opens] at h ⊢
  cases hs : s.toList with
  | nil =>
    rw [hs] at h
    cases h
  | cons c cs =>
    rw [hs] at h
    simpa [hs] using h

/-- A character before which a word ends, whatever the word. -/
def endsWord (c : Char) : Bool :=
  !isLetter c && (quote? c).isNone

theorem run_letters {w : List Char} (hw : ∀ c ∈ w, isLetter c = true) (v : List Char) :
    run (.word v) w = some ([], .word (v ++ w)) := by
  induction w generalizing v with
  | nil => simp [run]
  | cons c w ih =>
    have htake : (State.word v).take c = some ([], .word (v ++ [c])) :=
      if_pos (hw c List.mem_cons_self)
    rw [run_cons htake, ih fun d hd => hw d (List.mem_cons_of_mem c hd)]
    simp

theorem not_isLetter_of_isSpace {c : Char} (h : isSpace c = true) : isLetter c = false := by
  simp only [isSpace, Bool.or_eq_true, beq_iff_eq] at h
  rcases h with ((((rfl | rfl) | rfl) | rfl) | rfl) | rfl <;> rfl

theorem take_letter {c : Char} (h : isLetter c = true) :
    State.between.take c = some ([], .word [c]) := by
  have hspace : ¬ isSpace c = true := by
    intro hspace
    rw [not_isLetter_of_isSpace hspace] at h
    cases h
  rw [State.take, nextToken, if_neg hspace, if_pos h]

theorem reads_word_append {w t : String} {ts : List Token} (hne : w ≠ "")
    (hw : ∀ c ∈ w.toList, isLetter c = true) (ht : Reads t ts) (hopens : Opens endsWord t) :
    Reads (w ++ t) (.word w.toList :: ts) := by
  have hplain : ∀ c ∈ w.toList, c ≠ '\n' ∧ c ≠ '\\' := by
    intro c hc
    refine ⟨?_, ?_⟩ <;> rintro rfl <;> exact absurd (hw _ hc) (by decide)
  have hlast : w.toList.getLast? ≠ some '\\' := fun h =>
    (hplain _ (List.mem_of_getLast? h)).2 rfl
  refine ⟨?_, ?_⟩
  · rw [String.toList_append, splice_append (.inl hlast), ht.1,
      splice_of_notMem fun h => (hplain _ h).1 rfl]
  · obtain ⟨c, cs, hcs⟩ : ∃ c cs, w.toList = c :: cs :=
      List.exists_cons_of_ne_nil fun h => hne (String.toList_inj.mp h)
    obtain ⟨d, ds, hds⟩ : ∃ d ds, t.toList = d :: ds := by
      cases h : t.toList with
      | nil =>
        rw [Opens, h] at hopens
        cases hopens
      | cons d ds => exact ⟨d, ds, rfl⟩
    rw [hcs] at hw
    rw [Opens, hds, List.head?_cons, Option.any_some, endsWord, Bool.and_eq_true, Bool.not_eq_true',
      Option.isNone_iff_eq_none] at hopens
    have hrun := ht.2
    rw [hds] at hrun
    obtain ⟨us, st, vs, htake, hrest, rfl⟩ := run_cons_eq_some hrun
    have hend : (State.word w.toList).take d = some (.word w.toList :: us, st) := by
      rw [State.take] at htake
      rw [State.take, if_neg (by simp [hopens.1]), if_neg (by simp [hopens.2]), htake]
      rfl
    rw [hcs] at hend
    rw [String.toList_append, hcs, hds, List.cons_append,
      run_cons (take_letter (hw c List.mem_cons_self)), run_append,
      run_letters (fun e he => hw e (List.mem_cons_of_mem c he)), Option.bind_some,
      List.singleton_append, run_cons hend, hrest]
    rfl

/-! ## Parsers -/

abbrev Parser := StateT (List Token) Option

/-- Takes the tokens of a text. -/
def expect (text : String) : Parser Unit := fun ts =>
  (tokens? text).bind fun fixed =>
    if fixed <+: ts then some ((), ts.drop fixed.length) else none

theorem expect_append {text : String} {fixed : List Token} (h : tokens? text = some fixed)
    (ts : List Token) : expect text (fixed ++ ts) = some ((), ts) := by
  rw [expect, h, Option.bind_some, if_pos (List.prefix_append fixed ts), List.drop_left]

def word : Parser (List Char)
  | .word w :: ts => some (w, ts)
  | _ => none

/-- The value of a decimal numeral; a zero in front makes it one of another base. -/
def decimal? (w : List Char) : Option Nat :=
  if w = ['0'] ∨ w.head? ≠ some '0' then Text.digits? w else none

def number : Parser Nat
  | .word w :: ts => (decimal? w).map fun n => (n, ts)
  | _ => none

/-- The string literals in front, joined. -/
def adjacent : List Token → Bytes × List Token
  | .string bytes :: ts => (bytes ++ (adjacent ts).1, (adjacent ts).2)
  | ts => ([], ts)

/-- The bytes of a string literal, or of several in a row. -/
def literal : Parser Bytes
  | .string bytes :: ts => some (adjacent (.string bytes :: ts))
  | _ => none

/-- The character constants in front, with commas between them. -/
def listed : List Token → Bytes × List Token
  | .constant b :: .sign ',' :: ts => (b :: (listed ts).1, (listed ts).2)
  | .constant b :: ts => ([b], ts)
  | ts => ([], ts)

def constants : Parser Bytes := fun ts => some (listed ts)

/-- What a parser takes all tokens of a text for. -/
def parse? {α : Type} (p : Parser α) (source : String) : Option α :=
  (tokens? source).bind fun ts => (p ts).bind fun r => if r.2 = [] then some r.1 else none

/-! ### Parsing a text piece by piece -/

section Yields

variable {α β : Type} {p : Parser α} {f : α → Parser β} {a : α} {b : β} {s t : String}

/-- The parser takes a value from the text, whatever follows. -/
def Yields (p : Parser α) (s : String) (a : α) : Prop :=
  ∃ ts, Reads s ts ∧ ∀ rest, p (ts ++ rest) = some (a, rest)

theorem yields_pure (a : α) : Yields (pure a) "" a :=
  ⟨[], reads_empty, fun _ => rfl⟩

theorem Yields.bind (hp : Yields p s a) (hf : Yields (f a) t b) : Yields (p >>= f) (s ++ t) b := by
  obtain ⟨ts, hs, hp⟩ := hp
  obtain ⟨us, ht, hf⟩ := hf
  refine ⟨ts ++ us, hs.append ht, fun rest => ?_⟩
  rw [List.append_assoc]
  show (p (ts ++ (us ++ rest))).bind (fun r => f r.1 r.2) = _
  rw [hp, Option.bind_some, hf]

theorem Yields.parse?_eq (h : Yields p s a) : parse? p s = some a := by
  obtain ⟨ts, hs, hp⟩ := h
  have hall := hp []
  rw [List.append_nil] at hall
  rw [parse?, hs.tokens?_eq, Option.bind_some, hall]
  rfl

/-- Characters that can stand in front of any others. -/
def IsSettled (cs : List Char) : Prop :=
  splice cs = cs ∧ ∃ r ∈ run .between cs, r.2 = .between

instance (cs : List Char) : Decidable (IsSettled cs) :=
  inferInstanceAs (Decidable (_ ∧ _))

/-- A text that can stand in front of any other. -/
def Settled (s : String) : Prop :=
  IsSettled s.toList

theorem Settled.exists_reads (h : Settled s) : ∃ ts, Reads s ts := by
  obtain ⟨hsplice, r, hr, hbetween⟩ := h
  exact ⟨r.1, hsplice, hr.trans (congrArg some (Prod.ext rfl hbetween))⟩

theorem Reads.settled {ts : List Token} (h : Reads s ts) : Settled s :=
  ⟨h.1, _, h.2, rfl⟩

theorem settled_line {cs : List Char} (h : IsSettled (cs ++ ['\n'])) :
    Settled (String.ofList cs ++ "\n") := by
  rw [Settled, String.toList_append, String.toList_ofList]
  exact h

theorem settled_unlines_nil : Settled (Text.unlines []) :=
  reads_empty.settled

theorem settled_unlines_cons {cs : List Char} {ls : List String} (h : IsSettled (cs ++ ['\n']))
    (hls : Settled (Text.unlines ls)) : Settled (Text.unlines (String.ofList cs :: ls)) := by
  obtain ⟨ts, hts⟩ := (settled_line h).exists_reads
  obtain ⟨us, hus⟩ := hls.exists_reads
  exact (hts.append hus).settled

/-- The text can stand for the other one: it has the same tokens, perhaps with other blanks. -/
structure StandsFor (s text : String) : Prop where
  settled : Settled s
  same : tokens? s = tokens? text

theorem standsFor_ofList {cs ds : List Char} (h : IsSettled cs ∧ charTokens? cs = charTokens? ds) :
    StandsFor (String.ofList cs) (String.ofList ds) := by
  constructor
  · rw [Settled, String.toList_ofList]
    exact h.1
  · rw [tokens?, tokens?, String.toList_ofList, String.toList_ofList]
    exact h.2

theorem standsFor_line {cs ds : List Char}
    (h : IsSettled (cs ++ ['\n']) ∧ charTokens? (cs ++ ['\n']) = charTokens? ds) :
    StandsFor (Text.unlines [String.ofList cs]) (String.ofList ds) := by
  refine ⟨settled_unlines_cons h.1 settled_unlines_nil, ?_⟩
  rw [Text.unlines, Text.unlines, String.append_empty, tokens?, tokens?, String.toList_append,
    String.toList_ofList, String.toList_ofList, String.toList_ofList]
  exact h.2

theorem StandsFor.yields_expect {text : String} (h : StandsFor s text) :
    Yields (expect text) s () := by
  obtain ⟨ts, hts⟩ := h.settled.exists_reads
  exact ⟨ts, hts, expect_append (h.same.symm.trans hts.tokens?_eq)⟩

theorem StandsFor.then {text : String} (h : StandsFor s text) {q : Parser β} (hq : Yields q t b) :
    Yields (expect text >>= fun _ => q) (s ++ t) b :=
  h.yields_expect.bind hq

theorem StandsFor.last {text : String} (h : StandsFor s text) :
    Yields (expect text >>= fun _ => pure b) s b := by
  have hthen := h.then (yields_pure b)
  rwa [String.append_empty] at hthen

theorem Yields.of_blanks {blanks : String} (hblanks : Reads blanks []) (h : Yields p s a) :
    Yields p (blanks ++ s) a := by
  obtain ⟨ts, hs, hp⟩ := h
  exact ⟨ts, hblanks.append hs, hp⟩

theorem yields_word {f : List Char → Parser β} {w : String} (hne : w ≠ "")
    (hw : ∀ c ∈ w.toList, isLetter c = true) (hf : Yields (f w.toList) t b)
    (hopens : Opens endsWord t) : Yields (word >>= f) (w ++ t) b := by
  obtain ⟨ts, ht, hf⟩ := hf
  exact ⟨_, reads_word_append hne hw ht hopens, hf⟩

theorem isLetter_of_isDigit {c : Char} (h : c.isDigit = true) : isLetter c = true := by
  simp [isLetter, Char.isAlphanum, h]

theorem decimal?_toDigits (n : Nat) : decimal? (Nat.toDigits 10 n) = some n := by
  have hfirst : Nat.toDigits 10 n = ['0'] ∨ (Nat.toDigits 10 n).head? ≠ some '0' := by
    rcases Nat.eq_zero_or_pos n with rfl | hn
    · exact .inl (Nat.toDigits_zero 10)
    · exact .inr (Json.head?_toDigits_ne_zero hn)
  rw [decimal?, if_pos hfirst, Text.digits?_toDigits]

theorem reads_repr_append {ts : List Token} (n : Nat) (ht : Reads t ts)
    (hopens : Opens endsWord t) : Reads (Nat.repr n ++ t) (.word (Nat.repr n).toList :: ts) := by
  have hdigits : ∀ c ∈ (Nat.repr n).toList, isLetter c = true := by
    intro c hc
    rw [Nat.toList_repr] at hc
    exact isLetter_of_isDigit (Text.isDigit_of_mem_toDigits hc)
  have hne : Nat.repr n ≠ "" := by
    intro hempty
    have hlist := congrArg String.toList hempty
    rw [Nat.toList_repr] at hlist
    exact Nat.toDigits_ne_nil hlist
  exact reads_word_append hne hdigits ht hopens

theorem number_repr (n : Nat) (ts : List Token) :
    number (.word (Nat.repr n).toList :: ts) = some (n, ts) := by
  rw [number, Nat.toList_repr, decimal?_toDigits, Option.map_some]

theorem yields_number {f : Nat → Parser β} (n : Nat) (hf : Yields (f n) t b)
    (hopens : Opens endsWord t) : Yields (number >>= f) (Nat.repr n ++ t) b := by
  obtain ⟨ts, ht, hf⟩ := hf
  refine ⟨_, reads_repr_append n ht hopens, fun rest => ?_⟩
  show (number (.word (Nat.repr n).toList :: (ts ++ rest))).bind (fun r => f r.1 r.2) = _
  rw [number_repr, Option.bind_some, hf]

/-- A character that is a token of its own. -/
def isSign (c : Char) : Bool :=
  nextToken c == some ([.sign c], .between)

theorem Reads.exists_sign {ts : List Token} (ht : Reads t ts) (hopens : Opens isSign t) :
    ∃ c us, ts = .sign c :: us ∧ t.toList.head? = some c := by
  cases hlist : t.toList with
  | nil =>
    rw [Opens, hlist] at hopens
    cases hopens
  | cons c cs =>
    rw [Opens, hlist, List.head?_cons, Option.any_some, isSign, beq_iff_eq] at hopens
    have hrun := ht.2
    rw [hlist] at hrun
    obtain ⟨us, st, vs, htake, -, rfl⟩ := run_cons_eq_some hrun
    rw [State.take, hopens] at htake
    obtain ⟨rfl, -⟩ := Prod.mk.inj (Option.some.inj htake)
    exact ⟨c, vs, rfl, rfl⟩

theorem yields_literal {f : Bytes → Parser β} {bytes : Bytes} (hs : Reads s [.string bytes])
    (hf : Yields (f bytes) t b) (hopens : Opens isSign t) :
    Yields (literal >>= f) (s ++ t) b := by
  obtain ⟨ts, ht, hf⟩ := hf
  refine ⟨_, hs.append ht, fun rest => ?_⟩
  obtain ⟨c, us, rfl, -⟩ := ht.exists_sign hopens
  have hliteral : literal (.string bytes :: .sign c :: (us ++ rest)) =
      some (bytes, .sign c :: (us ++ rest)) := by
    rw [literal, adjacent, adjacent, List.append_nil]
    rintro bytes' ts' hcons
    cases hcons
  show (literal (.string bytes :: .sign c :: (us ++ rest))).bind (fun r => f r.1 r.2) = _
  rw [hliteral, Option.bind_some]
  exact hf rest

/-- The tokens of bytes in an initialiser, the last one with no comma. -/
def constantTokens (bytes : Bytes) (last : UInt8) : List Token :=
  bytes.flatMap (fun b => [.constant b, .sign ',']) ++ [.constant last]

theorem listed_constantTokens (bytes : Bytes) (last : UInt8) {c : Char} (hc : c ≠ ',')
    (ts : List Token) :
    listed (constantTokens bytes last ++ .sign c :: ts) = (bytes ++ [last], .sign c :: ts) := by
  induction bytes with
  | nil =>
    show listed (.constant last :: .sign c :: ts) = _
    rw [listed]
    · rfl
    · rintro ts' hcons
      exact hc (Token.sign.inj (List.cons.inj hcons).1)
  | cons b bytes ih =>
    show listed (.constant b :: .sign ',' :: (constantTokens bytes last ++ .sign c :: ts)) = _
    rw [listed, ih]
    rfl

theorem yields_constants {f : Bytes → Parser β} {bytes : Bytes} {last : UInt8}
    (hs : Reads s (constantTokens bytes last)) (hf : Yields (f (bytes ++ [last])) t b)
    (hopens : Opens isSign t) (hcomma : Opens (· != ',') t) :
    Yields (constants >>= f) (s ++ t) b := by
  obtain ⟨ts, ht, hf⟩ := hf
  refine ⟨_, hs.append ht, fun rest => ?_⟩
  obtain ⟨c, us, rfl, hhead⟩ := ht.exists_sign hopens
  have hc : c ≠ ',' := by
    rw [Opens, hhead] at hcomma
    simpa using hcomma
  have hconstants : constants (constantTokens bytes last ++ (.sign c :: us) ++ rest) =
      some (bytes ++ [last], .sign c :: us ++ rest) := by
    rw [constants, List.append_assoc, List.cons_append, listed_constantTokens bytes last hc]
  show (constants (constantTokens bytes last ++ (.sign c :: us) ++ rest)).bind
    (fun r => f r.1 r.2) = _
  rw [hconstants]
  exact hf rest

end Yields

end BuildPlan.CSource
