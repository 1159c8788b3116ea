import BuildPlan.Proofs.Lines
import BuildPlan.Proofs.Numeral
import BuildPlan.Proofs.Session
import BuildPlan.Proofs.Words
import BuildPlan.Scenario.Script

/-!
# Reading scripts that were written

Any calls can be written as a script, one directive for each, with blank lines and comments between
them, whatever the words and the texts hold. Reading such a script comes to the same as making its
calls: to the same scenario, or to the error of the first call that is refused, on the line of its
directive (`parse_scriptText`).
-/

namespace BuildPlan.Scenario

open Text (dropReturn isBlank unlines unlines_append)

/-! ## Writing calls -/

namespace Call

/-- The text that a call hands over, if it does. -/
def text? : Call → Option String
  | .file _ contents => some contents
  | .hostCode code => some code
  | _ => none

def command : Call → String
  | .file .. => "file"
  | .includePath _ => "include"
  | .hostHelper _ => "host-helper"
  | .hostCode _ => "host"
  | .entry _ => "entry"
  | .edit .. => "edit"
  | .flush => "flush"
  | .expect .. => "expect"

/-- The arguments of a call, where a text ends at the given tag. -/
def arguments (tag : String) : Call → List String
  | .file path _ => [path, "<<" ++ tag]
  | .includePath path => [path]
  | .hostHelper name => [name]
  | .hostCode _ => ["<<" ++ tag]
  | .entry name => [name]
  | .edit path line find replacement => [path, Nat.repr line, find, replacement]
  | .flush => []
  | .expect value _ => [Text.showInt value.toInt]

/-- The call as it is made from the given line of a script. -/
def atLine (line : Nat) : Call → Call
  | .expect value _ => .expect value line
  | call => call

end Call

/-- A call as it stands in a script. -/
structure Entry where
  /-- The blank lines and comments in front of it. -/
  notes : List String := []
  call : Call
  /-- The tag at the end of its text. -/
  tag : String := ""
  /-- The words that are written without quotes, where they can be. -/
  bare : String → Bool := fun _ => false

def IsNote (line : String) : Prop :=
  '\n' ∉ line.toList ∧
    (Text.trim line.toList = [] ∨ (Text.trim line.toList).head? = some '#')

instance (line : String) : Decidable (IsNote line) :=
  inferInstanceAs (Decidable (_ ∧ _))

namespace Entry

def directive (e : Entry) : String :=
  writeLine e.bare e.call.command (e.call.arguments e.tag)

/-- The lines of an entry, the text of its call as it is. -/
def text (e : Entry) : String :=
  unlines (e.notes ++ [e.directive]) ++
    match e.call.text? with
    | none => ""
    | some contents => contents ++ unlines [e.tag]

/-- What an entry has to be like: its notes say nothing, the line that it edits has a number that
can be read, and its text ends with a line feed, if it is not empty, has no carriage return in front
of one, and does not hold the tag that ends it. -/
structure WellWritten (e : Entry) : Prop where
  notes : ∀ line ∈ e.notes, IsNote line
  line : ∀ path line find replacement, e.call = .edit path line find replacement → line < lineLimit
  ending : ∀ contents, e.call.text? = some contents →
    contents = "" ∨ contents.toList.getLast? = some '\n'
  returns : ∀ contents, e.call.text? = some contents → ¬ ['\r', '\n'] <:+: contents.toList
  tag : ∀ contents, e.call.text? = some contents →
    e.tag ≠ "" ∧ (∀ c ∈ e.tag.toList, isBlank c = false) ∧
      ∀ l ∈ Text.lines contents.toList, Text.trimEnd l ≠ e.tag.toList

end Entry

/-- A script: its entries, and notes behind the last one. -/
def scriptText (closing : List String) : List Entry → String
  | [] => unlines closing
  | e :: rest => e.text ++ scriptText closing rest

/-- The calls of a script of which the first line has the given number, each with the number of the
line of its directive. -/
def placed (number : Nat) : List Entry → List (Nat × Call)
  | [] => []
  | e :: rest =>
    (number + e.notes.length, e.call.atLine (number + e.notes.length)) ::
      placed (number + (Text.lines e.text.toList).length) rest

/-! ## Reading a directive -/

def commands : List String :=
  ["file", "include", "host-helper", "host", "entry", "edit", "flush", "expect"]

theorem command_mem_commands (c : Call) : c.command ∈ commands := by
  cases c <;> simp [Call.command, commands]

theorem canBeBare_command (c : Call) : canBeBare c.command = true := by
  have hall : ∀ command ∈ commands, canBeBare command = true := by decide
  exact hall _ (command_mem_commands c)

theorem exists_cons_command (c : Call) :
    ∃ d ds, c.command.toList = d :: ds ∧ isBlank d = false ∧ d ≠ '#' := by
  have hall : ∀ command ∈ commands,
      (command.toList.head?.any fun d => !isBlank d && d != '#') = true := by decide
  obtain ⟨d, hhead, hplain⟩ := (Option.any_eq_true ..).mp (hall _ (command_mem_commands c))
  obtain ⟨ds, hd⟩ := List.head?_eq_some_iff.mp hhead
  exact ⟨d, ds, hd, by simpa using hplain⟩

theorem tagOf_append {tag : String} (h : tag ≠ "") : tagOf ("<<" ++ tag) = .ok tag.toList := by
  have hne : tag.toList ≠ [] := by simpa using h
  obtain ⟨c, cs, htag⟩ := List.exists_cons_of_ne_nil hne
  rw [tagOf, String.toList_append, htag]
  rfl

theorem directive_of_text {c : Call} {contents tag : String} (h : c.text? = some contents)
    (htag : tag ≠ "") (number : Nat) :
    ∃ use : TextUse, directive number c.command (c.arguments tag) = .ok (.text tag.toList use) ∧
      use.call contents = c.atLine number := by
  have htext : ∀ use, textDirective ("<<" ++ tag) use = .ok (.text tag.toList use) := by
    intro use
    rw [textDirective, tagOf_append htag]
  cases c with
  | file path contents' =>
    obtain rfl := Option.some.inj h
    exact ⟨.file path, htext _, rfl⟩
  | hostCode contents' =>
    obtain rfl := Option.some.inj h
    exact ⟨.hostCode, htext _, rfl⟩
  | _ => cases h

theorem directive_of_call {c : Call} (h : c.text? = none)
    (hline : ∀ path line find replacement, c = .edit path line find replacement → line < lineLimit)
    (tag : String) (number : Nat) :
    directive number c.command (c.arguments tag) = .ok (.calls [c.atLine number]) := by
  cases c with
  | file => cases h
  | hostCode => cases h
  | edit path line find replacement =>
    have hread := Text.parseNat?_repr (hline path line find replacement rfl)
    simp only [Call.command, Call.arguments, directive, hread]
    rfl
  | expect value line =>
    simp only [Call.command, Call.arguments, directive, Text.parseInt32?_showInt]
    rfl
  | includePath path => rfl
  | hostHelper name => rfl
  | entry name => rfl
  | flush => rfl

theorem toList_writeLine (bare : String → Bool) (command : String) (args : List String) :
    ∃ rest, (writeLine bare command args).toList = command.toList ++ rest := by
  cases args with
  | nil => exact ⟨[], (List.append_nil _).symm⟩
  | cons a args =>
    simp only [writeLine, List.map_cons, Text.joinWith, String.toList_append, List.append_assoc]
    exact ⟨_, rfl⟩

namespace Entry

variable {e : Entry}

theorem exists_cons_directive (e : Entry) :
    ∃ c cs, e.directive.toList = c :: cs ∧ isBlank c = false ∧ c ≠ '#' := by
  obtain ⟨rest, hrest⟩ := toList_writeLine e.bare e.call.command (e.call.arguments e.tag)
  obtain ⟨c, cs, hcommand, hc⟩ := exists_cons_command e.call
  exact ⟨c, cs ++ rest, by rw [directive, hrest, hcommand, List.cons_append], hc⟩

theorem trim_directive (e : Entry) : Text.trim e.directive.toList = e.directive.toList := by
  obtain ⟨c, cs, hfirst, hc, -⟩ := e.exists_cons_directive
  obtain ⟨front, d, hlast, hd⟩ :=
    endsSolid_writeLine e.bare (canBeBare_command e.call) (e.call.arguments e.tag)
  refine Text.trim_of_not_blank ?_ ?_
  · rw [hfirst, List.head?_cons]
    rintro _ ⟨⟩
    exact hc
  · rw [directive, hlast, List.getLast?_concat]
    rintro _ ⟨⟩
    exact hd

theorem dropReturn_directive (e : Entry) : dropReturn e.directive.toList = e.directive.toList := by
  obtain ⟨front, d, hlast, hd⟩ :=
    endsSolid_writeLine e.bare (canBeBare_command e.call) (e.call.arguments e.tag)
  refine Text.dropReturn_of_ne ?_
  rw [directive, hlast, List.getLast?_concat]
  rintro ⟨⟩
  exact absurd hd (by decide)

theorem readDirective_directive {number : Nat} {d : Directive}
    (h : Scenario.directive number e.call.command (e.call.arguments e.tag) = .ok d) :
    readDirective number e.directive.toList = .ok (some d) := by
  obtain ⟨c, cs, hfirst, -, hc⟩ := e.exists_cons_directive
  have hwords : wordsOf (c :: cs) = .ok (e.call.command :: e.call.arguments e.tag) := by
    rw [← hfirst]
    exact wordsOf_writeLine e.bare (canBeBare_command e.call) (e.call.arguments e.tag)
  rw [readDirective, trim_directive, hfirst]
  split
  · rename_i hnil
    cases hnil
  · rename_i rest hcomment
    exact absurd (List.cons.inj hcomment).1 hc
  · rename_i c' cs' _ hcons
    rw [← hcons, hwords]
    simp only [h]

/-! ## The lines of an entry -/

theorem newline_notMem_directive (e : Entry) : '\n' ∉ e.directive.toList :=
  newline_notMem_writeLine e.bare (canBeBare_command e.call) _

theorem newline_notMem_opening (h : e.WellWritten) :
    ∀ l ∈ e.notes ++ [e.directive], '\n' ∉ l.toList := by
  intro l hl
  rcases List.mem_append.mp hl with hl | hl
  · exact (h.notes l hl).1
  · rw [List.mem_singleton.mp hl]
    exact e.newline_notMem_directive

theorem text_of_call (hcall : e.call.text? = none) :
    e.text = unlines (e.notes ++ [e.directive]) := by
  rw [text, hcall, String.append_empty]

theorem exists_text_of_contents (h : e.WellWritten) {contents : String}
    (hcontents : e.call.text? = some contents) :
    ∃ body : List String, unlines body = contents ∧
      (∀ l ∈ e.notes ++ [e.directive] ++ (body ++ [e.tag]), '\n' ∉ l.toList) ∧
      e.text = unlines (e.notes ++ [e.directive] ++ (body ++ [e.tag])) := by
  obtain ⟨body, hbody, rfl⟩ := Text.exists_unlines (h.ending contents hcontents)
  refine ⟨body, rfl, ?_, ?_⟩
  · intro l hl
    rcases List.mem_append.mp hl with hl | hl
    · exact newline_notMem_opening h l hl
    · rcases List.mem_append.mp hl with hl | hl
      · exact hbody l hl
      · rw [List.mem_singleton.mp hl]
        intro hmem
        exact absurd ((h.tag _ hcontents).2.1 _ hmem) (by decide)
  · rw [text, hcontents, unlines_append _ (body ++ [e.tag]), unlines_append body]

theorem exists_unlines_text (h : e.WellWritten) :
    ∃ ls : List String, (∀ l ∈ ls, '\n' ∉ l.toList) ∧ e.text = unlines ls := by
  cases hcall : e.call.text? with
  | none => exact ⟨_, newline_notMem_opening h, text_of_call hcall⟩
  | some contents =>
    obtain ⟨body, -, hlines, htext⟩ := exists_text_of_contents h hcall
    exact ⟨_, hlines, htext⟩

theorem getElem?_lines_text (h : e.WellWritten) :
    (Text.lines e.text.toList)[e.notes.length]? = some e.directive.toList := by
  rw [text, String.toList_append, Text.lines_unlines_append (newline_notMem_opening h),
    List.map_append, List.map_singleton, e.dropReturn_directive]
  simp

theorem lines_text_append (h : e.WellWritten) (rest : List Char) :
    Text.lines (e.text.toList ++ rest) = Text.lines e.text.toList ++ Text.lines rest := by
  obtain ⟨ls, hls, htext⟩ := exists_unlines_text h
  rw [htext, Text.lines_unlines_append hls, Text.lines_unlines hls]

end Entry

/-! ## Reading lines -/

theorem trim_dropReturn (l : List Char) : Text.trim (dropReturn l) = Text.trim l := by
  rw [dropReturn]
  cases hl : Text.stripEnd? '\r' l with
  | none => rfl
  | some t =>
    obtain rfl := Text.stripEnd?_eq_some_iff.mp hl
    rw [Option.getD_some, Text.trim, Text.trim, Text.trimStart, Text.trimStart,
      List.dropWhile_append]
    split_ifs with hnil
    · rw [List.isEmpty_iff.mp hnil]
      rfl
    · exact (Text.trimEnd_concat_blank (by decide)).symm

theorem readDirective_note {l : String} (h : IsNote l) (number : Nat) :
    readDirective number (dropReturn l.toList) = .ok none := by
  rw [readDirective, trim_dropReturn]
  rcases h.2 with hnil | hcomment
  · rw [hnil]
  · obtain ⟨rest, hrest⟩ := List.head?_eq_some_iff.mp hcomment
    rw [hrest]
    rfl

namespace Reading

variable {b : Builder} {line number : Nat}

theorem steps_append (r : Reading) (number : Nat) (front rest : List (List Char)) :
    r.steps number (front ++ rest) =
      match r.steps number front with
      | .ok r => r.steps (number + front.length) rest
      | .error e => .error e := by
  induction front generalizing r number with
  | nil => rfl
  | cons l front ih =>
    rw [List.cons_append, steps, steps]
    cases r.step number l with
    | error e => rfl
    | ok r =>
      simp only [ih, List.length_cons]
      rw [Nat.add_assoc, Nat.add_comm 1]

theorem steps_singleton (r : Reading) (number : Nat) (l : List Char) :
    r.steps number [l] = r.step number l := by
  rw [steps]
  cases r.step number l <;> rfl

theorem make_single (r : Reading) (c : Call) :
    r.make [c] =
      match r.builder.call c with
      | .ok b => .ok { r with builder := b, openText := none }
      | .error e => .error (.step r.builder.name r.line e) := by
  rw [make, Builder.calls]
  cases r.builder.call c <;> rfl

/-- What a line makes of a reading, where no text is under way. -/
def follow (b : Builder) (number : Nat) : Option Directive → Except ScriptError Reading
  | none => .ok ⟨b, number, none⟩
  | some (.calls calls) => make ⟨b, number, none⟩ calls
  | some (.text tag use) => .ok ⟨b, number, some ⟨tag, use, []⟩⟩

theorem step_of_readDirective {l : List Char} {d : Option Directive}
    (h : readDirective number l = .ok d) : step ⟨b, line, none⟩ number l = follow b number d := by
  simp only [step, h]
  rcases d with _ | _ | _ <;> rfl

theorem steps_notes (b : Builder) (line number : Nat) {notes : List String}
    (h : ∀ l ∈ notes, IsNote l) :
    ∃ last, steps ⟨b, line, none⟩ number (notes.map fun l => dropReturn l.toList) =
      .ok ⟨b, last, none⟩ := by
  induction notes generalizing line number with
  | nil => exact ⟨line, rfl⟩
  | cons l notes ih =>
    obtain ⟨hl, hnotes⟩ := List.forall_mem_cons.mp h
    rw [List.map_cons, steps, step_of_readDirective (readDirective_note hl number)]
    exact ih _ _ hnotes

theorem steps_body {tag : List Char} {ls : List (List Char)} (h : ∀ l ∈ ls, Text.trimEnd l ≠ tag)
    (use : TextUse) (body : List Char) :
    steps ⟨b, line, some ⟨tag, use, body⟩⟩ number ls =
      .ok ⟨b, line, some ⟨tag, use, body ++ ls.flatMap (· ++ ['\n'])⟩⟩ := by
  induction ls generalizing number body with
  | nil => rw [steps, List.flatMap_nil, List.append_nil]
  | cons l ls ih =>
    obtain ⟨hl, hls⟩ := List.forall_mem_cons.mp h
    have hstep : step ⟨b, line, some ⟨tag, use, body⟩⟩ number l =
        .ok ⟨b, line, some ⟨tag, use, body ++ l ++ ['\n']⟩⟩ := if_neg hl
    rw [steps, hstep]
    simp only [ih hls, List.flatMap_cons, List.append_assoc]

/-- What comes of an entry: its call is made, on the line of its directive. -/
def made (b : Builder) (number : Nat) (c : Call) : Except ScriptError Reading :=
  match b.call c with
  | .ok b => .ok ⟨b, number, none⟩
  | .error e => .error (.step b.name number e)

theorem steps_of_call {e : Entry} (h : e.WellWritten) (hcall : e.call.text? = none) :
    steps ⟨b, line, none⟩ number (Text.lines e.text.toList) =
      made b (number + e.notes.length) (e.call.atLine (number + e.notes.length)) := by
  have hlines := Text.lines_unlines (Entry.newline_notMem_opening h)
  rw [← Entry.text_of_call hcall, List.map_append, List.map_singleton,
    e.dropReturn_directive] at hlines
  obtain ⟨last, hnotes⟩ := steps_notes b line number h.notes
  rw [hlines, steps_append, hnotes, List.length_map]
  simp only
  rw [steps_singleton, step_of_readDirective (Entry.readDirective_directive
    (directive_of_call hcall h.line e.tag _))]
  exact make_single _ _

theorem steps_text {tag : List Char} {ls : List (List Char)} (h : ∀ l ∈ ls, Text.trimEnd l ≠ tag)
    (htag : Text.trimEnd tag = tag) (use : TextUse) :
    steps ⟨b, line, some ⟨tag, use, []⟩⟩ number (ls ++ [tag]) =
      made b line (use.call (String.ofList (ls.flatMap (· ++ ['\n'])))) := by
  have hend : step ⟨b, line, some ⟨tag, use, ls.flatMap (· ++ ['\n'])⟩⟩ (number + ls.length) tag =
      make ⟨b, line, some ⟨tag, use, ls.flatMap (· ++ ['\n'])⟩⟩
        [use.call (String.ofList (ls.flatMap (· ++ ['\n'])))] := if_pos htag
  rw [steps_append, steps_body h, List.nil_append]
  simp only
  rw [steps_singleton, hend]
  exact make_single _ _

theorem steps_of_contents {e : Entry} (h : e.WellWritten) {contents : String}
    (hcontents : e.call.text? = some contents) :
    steps ⟨b, line, none⟩ number (Text.lines e.text.toList) =
      made b (number + e.notes.length) (e.call.atLine (number + e.notes.length)) := by
  obtain ⟨hne, hsolid, hbody⟩ := h.tag contents hcontents
  obtain ⟨body, rfl, hnewline, htext⟩ := Entry.exists_text_of_contents h hcontents
  -- no carriage return is lost
  have hkept : body.map (fun l => dropReturn l.toList) = body.map String.toList :=
    List.map_congr_left fun l hl => Text.dropReturn_of_unlines (h.returns _ hcontents) hl
  have htag : dropReturn e.tag.toList = e.tag.toList := by
    refine Text.dropReturn_of_ne fun hlast => ?_
    exact absurd (hsolid _ (List.mem_of_getLast? hlast)) (by decide)
  have hlines := Text.lines_unlines hnewline
  rw [← htext, List.map_append, List.map_append, List.map_append, List.map_singleton,
    List.map_singleton, e.dropReturn_directive, hkept, htag] at hlines
  rw [Text.lines_unlines fun l hl =>
    hnewline l (List.mem_append_right _ (List.mem_append_left _ hl)), hkept] at hbody
  obtain ⟨last, hnotes⟩ := steps_notes b line number h.notes
  obtain ⟨use, hdirective, huse⟩ := directive_of_text hcontents hne (number + e.notes.length)
  rw [hlines, steps_append, steps_append, hnotes, List.length_map]
  simp only
  rw [steps_singleton, step_of_readDirective (Entry.readDirective_directive hdirective)]
  simp only [follow]
  rw [steps_text hbody ?_ use, List.flatMap_map, ← Text.toList_unlines, String.ofList_toList, huse]
  simpa using Text.trimEnd_append hsolid (List.forall_mem_nil _)

theorem steps_entry {e : Entry} (h : e.WellWritten) :
    steps ⟨b, line, none⟩ number (Text.lines e.text.toList) =
      made b (number + e.notes.length) (e.call.atLine (number + e.notes.length)) := by
  cases hcall : e.call.text? with
  | none => exact steps_of_call h hcall
  | some contents => exact steps_of_contents h hcall

end Reading

/-! ## Reading a script -/

/-- The calls one after the other, up to the first that is refused, with the line of that one. -/
def Builder.run (b : Builder) : List (Nat × Call) → Except ScriptError Builder
  | [] => .ok b
  | (line, c) :: rest =>
    match b.call c with
    | .ok b => b.run rest
    | .error e => .error (.step b.name line e)

theorem run_eq_ok_iff {b b' : Builder} {cs : List (Nat × Call)} :
    b.run cs = .ok b' ↔ b.calls (cs.map Prod.snd) = .ok b' := by
  induction cs generalizing b with
  | nil => simp [Builder.run, Builder.calls]
  | cons c cs ih =>
    rw [Builder.run, List.map_cons, Builder.calls]
    cases b.call c.2 with
    | ok b => exact ih
    | error e => simp

theorem call_name {b b' : Builder} {c : Call} (h : b.call c = .ok b') : b'.name = b.name := by
  cases c with
  | file path contents =>
    rw [Builder.call] at h
    split_ifs at h
    rw [← Except.ok.inj h]
  | edit path line find replacement =>
    rw [Builder.call] at h
    split at h
    · cases h
    · rw [← Except.ok.inj h]
  | _ => rw [← Except.ok.inj h]

theorem calls_name {b b' : Builder} {cs : List Call} (h : b.calls cs = .ok b') :
    b'.name = b.name := by
  induction cs generalizing b with
  | nil => rw [Except.ok.inj h]
  | cons c cs ih =>
    obtain ⟨b₁, hc, hcs⟩ := calls_cons.mp h
    rw [ih hcs, call_name hc]

theorem run_of_refused {b b₁ : Builder} {cs : List (Nat × Call)} {k line : Nat} {c : Call}
    {e : CallError} (hk : cs[k]? = some (line, c))
    (hbefore : b.calls ((cs.take k).map Prod.snd) = .ok b₁) (hc : b₁.call c = .error e) :
    b.run cs = .error (.step b.name line e) := by
  induction cs generalizing b k with
  | nil => cases hk
  | cons d cs ih =>
    cases k with
    | zero =>
      obtain rfl := Option.some.inj hk
      obtain rfl := Except.ok.inj hbefore
      rw [Builder.run, hc]
    | succ k =>
      obtain ⟨b₂, hd, hrest⟩ := calls_cons.mp hbefore
      rw [Builder.run, hd]
      simp only
      rw [ih hk hrest, call_name hd]

theorem getElem?_placed {entries : List Entry} {closing : List String}
    (h : ∀ e ∈ entries, e.WellWritten) (number : Nat) {k line : Nat} {c : Call}
    (hk : (placed number entries)[k]? = some (line, c)) :
    ∃ e, entries[k]? = some e ∧ c = e.call.atLine line ∧ number ≤ line ∧
      (Text.lines (scriptText closing entries).toList)[line - number]? =
        some e.directive.toList := by
  induction entries generalizing number k with
  | nil => cases hk
  | cons e entries ih =>
    obtain ⟨he, hentries⟩ := List.forall_mem_cons.mp h
    rw [scriptText, String.toList_append, Entry.lines_text_append he]
    cases k with
    | zero =>
      obtain ⟨rfl, rfl⟩ := Prod.mk.inj (Option.some.inj hk)
      refine ⟨e, rfl, rfl, by omega, ?_⟩
      rw [Nat.add_sub_cancel_left, List.getElem?_append_left]
      · exact Entry.getElem?_lines_text he
      · exact (List.getElem?_eq_some_iff.mp (Entry.getElem?_lines_text he)).1
    | succ k =>
      obtain ⟨e', he', hc, hle, hline⟩ := ih hentries _ hk
      refine ⟨e', he', hc, by omega, ?_⟩
      rw [List.getElem?_append_right (by omega), ← hline]
      congr 1
      omega

/-- **Reading a script comes to the same as making its calls.** -/
theorem steps_scriptText {entries : List Entry} {closing : List String}
    (h : ∀ e ∈ entries, e.WellWritten) (hclosing : ∀ l ∈ closing, IsNote l) (b : Builder)
    (line number : Nat) :
    ∃ last, Reading.steps ⟨b, line, none⟩ number
        (Text.lines (scriptText closing entries).toList) =
      match b.run (placed number entries) with
      | .ok b => .ok ⟨b, last, none⟩
      | .error e => .error e := by
  -- an entry leaves no text under way, so that the next one starts as the first did
  induction entries generalizing b line number with
  | nil =>
    have hlines := Text.lines_unlines fun l hl => (hclosing l hl).1
    obtain ⟨last, hnotes⟩ := Reading.steps_notes b line number hclosing
    refine ⟨last, ?_⟩
    rw [scriptText, hlines, hnotes]
    rfl
  | cons e entries ih =>
    obtain ⟨he, hentries⟩ := List.forall_mem_cons.mp h
    rw [scriptText, String.toList_append, Entry.lines_text_append he, placed, Builder.run]
    simp only [Reading.steps_append, Reading.steps_entry he, Reading.made]
    cases b.call (e.call.atLine (number + e.notes.length)) with
    | error reason => exact ⟨line, rfl⟩
    | ok b' => exact ih hentries b' _ _

/-- **A script says what its calls do.** Let the calls of a script be made on a new builder, each
expectation with the line of its own directive. If a scenario comes of them, reading the script
gives that scenario. If none does because no file was declared, reading it fails for that reason.
And if a call is refused, reading it fails for the same reason, on the line on which the directive
of that call stands. -/
theorem parse_scriptText (name : String) {entries : List Entry} {closing : List String}
    (h : ∀ e ∈ entries, e.WellWritten) (hclosing : ∀ l ∈ closing, IsNote l) :
    (∀ b, Builder.calls { name := name } ((placed 1 entries).map Prod.snd) = .ok b →
      (∀ s, b.scenario = .ok s → parse name (scriptText closing entries) = .ok s) ∧
      (b.scenario = .error .withoutFiles → ∃ line,
        parse name (scriptText closing entries) = .error (.step name line .withoutFiles))) ∧
    ∀ k line c b e, (placed 1 entries)[k]? = some (line, c) →
      Builder.calls { name := name } (((placed 1 entries).take k).map Prod.snd) = .ok b →
      b.call c = .error e →
      parse name (scriptText closing entries) = .error (.step name line e) ∧
        ∃ entry, entries[k]? = some entry ∧ c = entry.call.atLine line ∧ 1 ≤ line ∧
          (Text.lines (scriptText closing entries).toList)[line - 1]? =
            some entry.directive.toList := by
  obtain ⟨last, hsteps⟩ := steps_scriptText h hclosing { name := name } 0 1
  refine ⟨fun b hb => ?_, fun k line c b e hk hb he => ⟨?_, getElem?_placed h 1 hk⟩⟩
  · have hname : b.name = name := calls_name hb
    rw [run_eq_ok_iff.mpr hb] at hsteps
    refine ⟨fun s hs => ?_, fun hs => ⟨last, ?_⟩⟩
    · rw [parse, hsteps]
      simp only [Reading.finish, hs]
    · rw [parse, hsteps]
      simp only [Reading.finish, hs, hname]
  · rw [run_of_refused hk hb he] at hsteps
    rw [parse, hsteps]

/-! ## A script -/

namespace Sample

/-- A file that is edited, with the call behind the edit. -/
def entries (find : String) : List Entry :=
  [{ notes := ["# one file", ""], call := .file "a.c" "int x;\n", tag := "END",
      bare := fun _ => true },
    { call := .edit "a.c" 1 find "\"y\"\n" },
    { call := .flush },
    { notes := ["\t"], call := .expect 3 0, bare := fun _ => true }]

example : scriptText ["# end"] (entries "x;") =
    unlines ["# one file", "", "file a.c <<END", "int x;", "END",
      "edit \"a.c\" \"1\" \"x;\" \"\\\"y\\\"\\n\"", "flush", "\t", "expect 3", "# end"] := by
  decide +kernel

theorem entries_wellWritten (find : String) : ∀ e ∈ entries find, e.WellWritten := by
  have hnone : ∀ e : Entry, e.call.text? = none → (∀ line ∈ e.notes, IsNote line) →
      (∀ path line find replacement, e.call = .edit path line find replacement →
        line < lineLimit) → e.WellWritten := by
    intro e hcall hnotes hline
    constructor
    · exact hnotes
    · exact hline
    all_goals
      intro contents hcontents
      rw [hcall] at hcontents
      cases hcontents
  simp only [entries, List.forall_mem_cons, List.not_mem_nil, false_implies, implies_true, and_true]
  refine ⟨?_, ?_, ?_, ?_⟩
  · constructor
    · decide
    · rintro _ _ _ _ ⟨⟩
    · rintro _ ⟨⟩
      decide +kernel
    · rintro _ ⟨⟩
      decide +kernel
    · rintro _ ⟨⟩
      have hsolid : ("END".toList.all fun c => !isBlank c) = true := by decide
      exact ⟨by decide, by simpa using hsolid, by decide +kernel⟩
  · refine hnone _ rfl (List.forall_mem_nil _) ?_
    rintro _ _ _ _ ⟨⟩
    decide
  · refine hnone _ rfl (by decide) ?_
    rintro _ _ _ _ ⟨⟩
  · refine hnone _ rfl (by decide) ?_
    rintro _ _ _ _ ⟨⟩

/-- What the calls come to where the edit finds its text. -/
def edited : Builder where
  name := "s.scn"
  files := [⟨"a.c", "int x;\n", "int \"y\"\n\n", false⟩]
  steps := [.update "a.c" "int \"y\"\n\n", .expect 3 ⟨"s.scn", 9⟩]
  started := true

def unedited : Builder where
  name := "s.scn"
  files := [⟨"a.c", "int x;\n", "int x;\n", false⟩]

/-- The edit finds its text, or is refused on its line; and a script of notes has no files. -/
theorem parse_entries :
    (∃ s, edited.scenario = .ok s ∧
      parse "s.scn" (scriptText ["# end"] (entries "x;")) = .ok s) ∧
    parse "s.scn" (scriptText ["# end"] (entries "z")) =
      .error (.step "s.scn" 6 (.noSuchText "a.c" 1 "z")) ∧
    ∃ line, parse "s.scn" (scriptText ["# end"] []) =
      .error (.step "s.scn" line .withoutFiles) := by
  have hclosing : ∀ l ∈ ["# end"], IsNote l := by decide
  refine ⟨⟨_, rfl, ?_⟩, ?_, ?_⟩
  · exact ((parse_scriptText "s.scn" (entries_wellWritten "x;") hclosing).1 edited
      (by decide +kernel)).1 _ rfl
  · exact ((parse_scriptText "s.scn" (entries_wellWritten "z") hclosing).2 1 6
      (.edit "a.c" 1 "z" "\"y\"\n") unedited _ (by decide +kernel) (by decide +kernel)
      (by decide +kernel)).1
  · exact ((parse_scriptText "s.scn" (List.forall_mem_nil _) hclosing).1 { name := "s.scn" }
      rfl).2 rfl

end Sample

end BuildPlan.Scenario
