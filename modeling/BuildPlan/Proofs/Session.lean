import BuildPlan.Scenario.Builder
import Mathlib.Data.List.DropRight

/-!
# What a session sees of the edits

A builder ties three things together that change at different times: the current text of a file,
the mark that it was edited, and the updates made so far. `Tracks` says what they are after given
calls: the text is the declared one after all edits, the mark tells of an edit behind the last flush,
and the updates, handed over in order, leave every file as the edits up to the last flush made it. So
an expectation sees the edits before the last flush before it, and no others
(`session_visibility`).
-/

namespace BuildPlan.Scenario

/-! ## Reading calls -/

def Call.declares? : Call → Option TrackedFile
  | .file path contents => some ⟨path, contents⟩
  | _ => none

def declared (cs : List Call) : List TrackedFile := cs.filterMap Call.declares?

def Call.starts : Call → Bool
  | .edit .. | .flush | .expect .. => true
  | _ => false

def Call.edits (path : String) : Call → Bool
  | .edit other .. => other == path
  | _ => false

/-- The calls up to the last flush, and with it. -/
def flushed (cs : List Call) : List Call := cs.rdropWhile (· != .flush)

def unflushed (cs : List Call) : List Call := cs.rtakeWhile (· != .flush)

/-- A piece of a text with every occurrence of `find` before its line feed replaced. -/
def replaceInPiece (find sub piece : List Char) : List Char :=
  match Text.stripEnd? '\n' piece with
  | some text => Text.replace find sub text ++ ['\n']
  | none => Text.replace find sub piece

/-- A text with every occurrence of `find` in the line `line` replaced, the first line being 1. -/
def replaceInLine (line : Nat) (find replacement text : String) : String :=
  String.ofList ((Text.pieces text.toList).modify (line - 1)
    (replaceInPiece find.toList replacement.toList)).flatten

/-- What a call makes of the text of the file at a path. -/
def Call.change (path text : String) : Call → String
  | .edit other line find replacement =>
    if other = path then replaceInLine line find replacement text else text
  | _ => text

/-- The text of a file after all edits among the calls. -/
def TrackedFile.after (f : TrackedFile) (cs : List Call) : String :=
  cs.foldl (Call.change f.path) f.contents

/-- What a step of a session makes of the text of the file at a path. -/
def Step.change (path text : String) : Step → String
  | .update other contents => if other = path then contents else text
  | .expect _ _ => text

/-- The text of a file after all updates among the steps. -/
def TrackedFile.held (f : TrackedFile) (steps : List Step) : String :=
  steps.foldl (Step.change f.path) f.contents

theorem declared_append (cs ds : List Call) : declared (cs ++ ds) = declared cs ++ declared ds :=
  List.filterMap_append

theorem flushed_concat (cs : List Call) (c : Call) :
    flushed (cs ++ [c]) = if c = .flush then cs ++ [c] else flushed cs := by
  rw [flushed, List.rdropWhile_concat]
  by_cases h : c = .flush <;> simp [h, flushed]

theorem unflushed_concat (cs : List Call) (c : Call) :
    unflushed (cs ++ [c]) = if c = .flush then [] else unflushed cs ++ [c] := by
  rw [unflushed, List.rtakeWhile_concat]
  by_cases h : c = .flush <;> simp [h, unflushed]

theorem TrackedFile.after_concat (f : TrackedFile) (cs : List Call) (c : Call) :
    f.after (cs ++ [c]) = c.change f.path (f.after cs) := by
  simp [after]

theorem change_of_not_edits {c : Call} {path : String} (h : c.edits path = false) (text : String) :
    c.change path text = text := by
  cases c with
  | edit other line find replacement =>
    rw [Call.change, if_neg]
    simpa [Call.edits] using h
  | _ => rfl

theorem edits_of_not_starts {c : Call} (h : c.starts = false) (path : String) :
    c.edits path = false := by
  cases c with
  | edit => cases h
  | _ => rfl

theorem TrackedFile.after_of_not_edits {f : TrackedFile} {cs : List Call}
    (h : ∀ c ∈ cs, c.edits f.path = false) : f.after cs = f.contents := by
  rw [after]
  generalize f.contents = text
  induction cs generalizing text with
  | nil => rfl
  | cons c cs ih =>
    rw [List.foldl_cons, change_of_not_edits (h c (by simp))]
    exact ih (fun d hd => h d (List.mem_cons_of_mem c hd)) text

/-! ## Edits -/

theorem editPiece?_eq_some {find sub piece edited : List Char}
    (h : editPiece? find sub piece = some edited) : edited = replaceInPiece find sub piece := by
  rw [editPiece?] at h
  rw [replaceInPiece]
  cases ht : Text.stripEnd? '\n' piece with
  | some text =>
    simp only [ht] at h ⊢
    split at h
    · exact (Option.some.inj h).symm
    · cases h
  | none =>
    simp only [ht] at h ⊢
    split at h
    · exact (Option.some.inj h).symm
    · cases h

theorem OpenFile.replaceOnLine_ok {f f' : OpenFile} {line : Nat} {find replacement : String}
    (h : f.replaceOnLine line find replacement = .ok f') :
    f' = { f with current := replaceInLine line find replacement f.current, dirty := true } := by
  rw [OpenFile.replaceOnLine] at h
  split at h
  · cases h
  · split at h
    · cases h
    · next piece hpiece =>
      split at h
      · cases h
      · next edited hedited =>
        cases h
        rw [replaceInLine, List.modify_eq_set_getElem?, hpiece, editPiece?_eq_some hedited]
        rfl

theorem editFile_ok {path : String} {line : Nat} {find replacement : String}
    {files files' : List OpenFile} (hnodup : (files.map OpenFile.path).Nodup)
    (h : editFile path line find replacement files = .ok files') :
    files' = files.map fun f =>
      if f.path = path then
        { f with current := replaceInLine line find replacement f.current, dirty := true }
      else f := by
  induction files generalizing files' with
  | nil => cases h
  | cons f files ih =>
    obtain ⟨hf, hnodup⟩ := List.nodup_cons.mp hnodup
    rw [editFile] at h
    split at h
    · next hpath =>
      split at h
      · cases h
      · next f' hf' =>
        cases h
        have hrest : ∀ g ∈ files, ¬ g.path = path := fun g hg he =>
          hf (List.mem_map.mpr ⟨g, hg, he.trans hpath.symm⟩)
        rw [List.map_cons, if_pos hpath, OpenFile.replaceOnLine_ok hf']
        rw [List.map_congr_left fun g hg => if_neg (hrest g hg), List.map_id']
    · next hpath =>
      split at h
      · cases h
      · next rest hrest =>
        cases h
        rw [List.map_cons, if_neg hpath, ih hnodup hrest]

/-! ## Updates -/

theorem updates_cons (f : OpenFile) (files : List OpenFile) :
    updates (f :: files) =
      (if f.dirty then [.update f.path f.current] else []) ++ updates files := by
  rw [updates, List.filter_cons]
  split <;> rfl

theorem foldl_updates_of_notMem {files : List OpenFile} {path : String}
    (h : path ∉ files.map OpenFile.path) (text : String) :
    (updates files).foldl (Step.change path) text = text := by
  induction files generalizing text with
  | nil => rfl
  | cons f files ih =>
    rw [List.map_cons, List.mem_cons, not_or] at h
    rw [updates_cons, List.foldl_append]
    have hf : (if f.dirty then [Step.update f.path f.current] else []).foldl
        (Step.change path) text = text := by
      split
      · exact if_neg (Ne.symm h.1)
      · rfl
    rw [hf]
    exact ih h.2 text

theorem foldl_updates {files : List OpenFile} (hnodup : (files.map OpenFile.path).Nodup)
    {f : OpenFile} (hf : f ∈ files) (text : String) :
    (updates files).foldl (Step.change f.path) text = if f.dirty then f.current else text := by
  induction files generalizing text with
  | nil => cases hf
  | cons g files ih =>
    obtain ⟨hg, hnodup⟩ := List.nodup_cons.mp hnodup
    rw [updates_cons, List.foldl_append]
    rcases List.mem_cons.mp hf with rfl | hf
    · rw [foldl_updates_of_notMem hg]
      split <;> simp [Step.change]
    · have hne : g.path ≠ f.path := fun he => hg (he ▸ List.mem_map_of_mem hf)
      rw [← ih hnodup hf text]
      congr 1
      split <;> simp [Step.change, hne]

/-! ## The invariant -/

/-- A declared file as the builder sees it after calls. -/
def openFile (cs : List Call) (f : TrackedFile) : OpenFile :=
  ⟨f.path, f.contents, f.after cs, (unflushed cs).any (Call.edits f.path)⟩

/-- The builder has taken the calls, from the empty one with the given name. -/
structure Tracks (name : String) (cs : List Call) (b : Builder) : Prop where
  name_eq : b.name = name
  started_eq : b.started = cs.any Call.starts
  files_eq : b.files = (declared cs).map (openFile cs)
  paths_nodup : ((declared cs).map TrackedFile.path).Nodup
  steps_quiet : cs.any Call.starts = false → b.steps = []
  held_eq : ∀ f ∈ declared cs, f.held b.steps = f.after (flushed cs)

theorem Tracks.start (name : String) : Tracks name [] { name := name } where
  name_eq := rfl
  started_eq := rfl
  files_eq := rfl
  paths_nodup := List.nodup_nil
  steps_quiet := fun _ => rfl
  held_eq := by simp [declared]

theorem openFile_concat {cs : List Call} {c : Call} {f : TrackedFile}
    (hedits : c.edits f.path = false) (hflush : c ≠ .flush) :
    openFile (cs ++ [c]) f = openFile cs f := by
  simp [openFile, f.after_concat, change_of_not_edits hedits, unflushed_concat, hflush, hedits]

theorem openFile_of_quiet {cs : List Call} (h : cs.any Call.starts = false) (f : TrackedFile) :
    openFile cs f = ⟨f.path, f.contents, f.contents, false⟩ := by
  have hcs : ∀ c ∈ cs, c.edits f.path = false := fun c hc =>
    edits_of_not_starts (by simpa using List.any_eq_false.mp h c hc) f.path
  rw [openFile, TrackedFile.after_of_not_edits hcs]
  congr 1
  rw [List.any_eq_false]
  intro c hc
  simp [hcs c ((List.rtakeWhile_suffix _ cs).subset hc)]

theorem any_starts_concat (cs : List Call) (c : Call) :
    (cs ++ [c]).any Call.starts = (cs.any Call.starts || c.starts) := by
  simp

theorem declared_concat {cs : List Call} {c : Call} (h : c.declares? = none) :
    declared (cs ++ [c]) = declared cs := by
  simp [declared, h]

theorem Tracks.keep {name : String} {cs : List Call} {b b' : Builder} (h : Tracks name cs b)
    {c : Call} (hdeclares : c.declares? = none) (hstarts : c.starts = false)
    (hname : b'.name = b.name) (hstarted : b'.started = b.started) (hfiles : b'.files = b.files)
    (hsteps : b'.steps = b.steps) : Tracks name (cs ++ [c]) b' := by
  have hflush : c ≠ .flush := by
    rintro rfl
    cases hstarts
  constructor
  · rw [hname, h.name_eq]
  · rw [hstarted, h.started_eq, any_starts_concat, hstarts, Bool.or_false]
  · rw [hfiles, h.files_eq, declared_concat hdeclares]
    exact List.map_congr_left fun f _ =>
      (openFile_concat (edits_of_not_starts hstarts f.path) hflush).symm
  · rw [declared_concat hdeclares]
    exact h.paths_nodup
  · intro hquiet
    rw [any_starts_concat, Bool.or_eq_false_iff] at hquiet
    rw [hsteps, h.steps_quiet hquiet.1]
  · intro f hf
    rw [declared_concat hdeclares] at hf
    rw [hsteps, flushed_concat, if_neg hflush, h.held_eq f hf]

theorem Tracks.file {name : String} {cs : List Call} {b b' : Builder} (h : Tracks name cs b)
    {path contents : String} (hcall : b.call (.file path contents) = .ok b') :
    Tracks name (cs ++ [.file path contents]) b' := by
  rw [Builder.call] at hcall
  split at hcall
  · cases hcall
  · next hstarted =>
    split at hcall
    · cases hcall
    · next hfresh =>
      cases hcall
      have hquiet : cs.any Call.starts = false := by
        rw [← h.started_eq]
        simpa using hstarted
      have hpaths : path ∉ (declared cs).map TrackedFile.path := by
        rw [h.files_eq] at hfresh
        simpa [openFile] using hfresh
      have hdeclared : declared (cs ++ [.file path contents]) =
          declared cs ++ [⟨path, contents⟩] := by
        rw [declared_append]
        rfl
      have hopen : ∀ f, openFile (cs ++ [.file path contents]) f = openFile cs f := fun f =>
        openFile_concat rfl (by simp)
      constructor
      · exact h.name_eq
      · simp [h.started_eq, Call.starts]
      · rw [hdeclared, List.map_append, List.map_singleton, hopen, openFile_of_quiet hquiet,
          funext hopen]
        simp [h.files_eq]
      · rw [hdeclared, List.map_append, List.map_singleton, List.nodup_append]
        refine ⟨h.paths_nodup, by simp, ?_⟩
        rintro p hp q hq rfl
        rw [List.mem_singleton] at hq
        subst hq
        exact hpaths hp
      · exact fun _ => h.steps_quiet hquiet
      · intro f _
        have hedits : ∀ c ∈ flushed cs, c.edits f.path = false := fun c hc =>
          edits_of_not_starts (by
            simpa using List.any_eq_false.mp hquiet c ((List.rdropWhile_prefix _ cs).subset hc)) _
        rw [flushed_concat, if_neg (by simp), TrackedFile.after_of_not_edits hedits]
        simp [h.steps_quiet hquiet, TrackedFile.held]

theorem Tracks.edit {name : String} {cs : List Call} {b b' : Builder} (h : Tracks name cs b)
    {path : String} {line : Nat} {find replacement : String}
    (hcall : b.call (.edit path line find replacement) = .ok b') :
    Tracks name (cs ++ [.edit path line find replacement]) b' := by
  rw [Builder.call] at hcall
  split at hcall
  · cases hcall
  · next files hfiles =>
    cases hcall
    have hnodup : (b.files.map OpenFile.path).Nodup := by
      rw [h.files_eq, List.map_map]
      exact h.paths_nodup
    constructor
    · exact h.name_eq
    · simp [Call.starts]
    · rw [editFile_ok hnodup hfiles, declared_concat rfl, h.files_eq, List.map_map]
      refine List.map_congr_left fun f _ => ?_
      rw [Function.comp_apply]
      split
      · next hpath =>
        rw [openFile, openFile, f.after_concat, unflushed_concat, if_neg (by simp)]
        simp only [openFile] at hpath
        simp [Call.change, Call.edits, hpath]
      · next hpath =>
        have hedits : (Call.edit path line find replacement).edits f.path = false :=
          beq_eq_false_iff_ne.mpr (Ne.symm hpath)
        exact (openFile_concat hedits (by simp)).symm
    · rw [declared_concat rfl]
      exact h.paths_nodup
    · intro hquiet
      simp [Call.starts] at hquiet
    · intro f hf
      rw [declared_concat rfl] at hf
      rw [flushed_concat, if_neg (by simp), ← h.held_eq f hf]

theorem Tracks.flush {name : String} {cs : List Call} {b b' : Builder} (h : Tracks name cs b)
    (hcall : b.call .flush = .ok b') : Tracks name (cs ++ [.flush]) b' := by
  cases hcall
  have hnodup : (b.files.map OpenFile.path).Nodup := by
    rw [h.files_eq, List.map_map]
    exact h.paths_nodup
  constructor
  · exact h.name_eq
  · simp [Call.starts]
  · rw [declared_concat rfl, h.files_eq, List.map_map]
    refine List.map_congr_left fun f _ => ?_
    simp [openFile, f.after_concat, unflushed_concat, Call.change]
  · rw [declared_concat rfl]
    exact h.paths_nodup
  · intro hquiet
    simp [Call.starts] at hquiet
  · intro f hf
    rw [declared_concat rfl] at hf
    have hopen : openFile cs f ∈ b.files := by
      rw [h.files_eq]
      exact List.mem_map_of_mem hf
    rw [TrackedFile.held, List.foldl_append, flushed_concat, if_pos rfl, f.after_concat]
    rw [show f.path = (openFile cs f).path from rfl, foldl_updates hnodup hopen]
    split
    · rfl
    · next hdirty =>
      -- no edit since the last flush, so the current text is what that flush handed over
      have hrest : ∀ c ∈ unflushed cs, c.edits f.path = false := by
        simpa [openFile] using hdirty
      have hafter : f.after cs = f.after (flushed cs) := by
        conv_lhs => rw [← List.rdropWhile_append_rtakeWhile (p := (· != Call.flush)) (l := cs)]
        rw [TrackedFile.after, List.foldl_append]
        exact TrackedFile.after_of_not_edits (f := ⟨f.path, f.after (flushed cs)⟩) hrest
      exact (h.held_eq f hf).trans hafter.symm

theorem Tracks.expect {name : String} {cs : List Call} {b b' : Builder} (h : Tracks name cs b)
    {value : Int32} {line : Nat} (hcall : b.call (.expect value line) = .ok b') :
    Tracks name (cs ++ [.expect value line]) b' := by
  cases hcall
  constructor
  · exact h.name_eq
  · simp [Call.starts]
  · rw [declared_concat rfl, h.files_eq]
    exact List.map_congr_left fun f _ => (openFile_concat rfl (by simp)).symm
  · rw [declared_concat rfl]
    exact h.paths_nodup
  · intro hquiet
    simp [Call.starts] at hquiet
  · intro f hf
    rw [declared_concat rfl] at hf
    rw [TrackedFile.held, List.foldl_append, flushed_concat, if_neg (by simp)]
    exact h.held_eq f hf

/-- **Every call keeps the invariant.** -/
theorem Tracks.call {name : String} {cs : List Call} {b b' : Builder} (h : Tracks name cs b)
    {c : Call} (hcall : b.call c = .ok b') : Tracks name (cs ++ [c]) b' := by
  cases c with
  | file path contents => exact h.file hcall
  | edit path line find replacement => exact h.edit hcall
  | flush => exact h.flush hcall
  | expect value line => exact h.expect hcall
  | _ =>
    cases hcall
    exact h.keep rfl rfl rfl rfl rfl rfl

theorem Tracks.calls {name : String} {cs ds : List Call} {b b' : Builder} (h : Tracks name cs b)
    (hcalls : b.calls ds = .ok b') : Tracks name (cs ++ ds) b' := by
  induction ds generalizing cs b with
  | nil =>
    cases hcalls
    rwa [List.append_nil]
  | cons c ds ih =>
    rw [Builder.calls] at hcalls
    split at hcalls
    · cases hcalls
    · next b₁ hcall =>
      rw [List.append_cons]
      exact ih (h.call hcall) hcalls

/-! ## Steps and the calls behind them -/

def emitted (b : Builder) : Call → List Step
  | .flush => updates b.files
  | .expect value line => [.expect value ⟨b.name, line⟩]
  | _ => []

theorem call_steps {b b' : Builder} {c : Call} (h : b.call c = .ok b') :
    b'.steps = b.steps ++ emitted b c := by
  cases c with
  | file path contents =>
    rw [Builder.call] at h
    split at h
    · cases h
    · split at h
      · cases h
      · cases h
        simp [emitted]
  | edit path line find replacement =>
    rw [Builder.call] at h
    split at h
    · cases h
    · cases h
      simp [emitted]
  | flush =>
    cases h
    rfl
  | expect value line =>
    cases h
    rfl
  | _ =>
    cases h
    simp [emitted]

theorem calls_append {b : Builder} {cs ds : List Call} {b' : Builder} :
    b.calls (cs ++ ds) = .ok b' ↔ ∃ b₁, b.calls cs = .ok b₁ ∧ b₁.calls ds = .ok b' := by
  induction cs generalizing b with
  | nil => simp [Builder.calls]
  | cons c cs ih =>
    rw [List.cons_append, Builder.calls, Builder.calls]
    cases b.call c with
    | error e => simp
    | ok b₁ => exact ih

theorem calls_cons {b : Builder} {c : Call} {cs : List Call} {b' : Builder} :
    b.calls (c :: cs) = .ok b' ↔ ∃ b₁, b.call c = .ok b₁ ∧ b₁.calls cs = .ok b' := by
  rw [Builder.calls]
  cases b.call c <;> simp

theorem calls_steps {b b' : Builder} {cs : List Call} (h : b.calls cs = .ok b') :
    b.steps <+: b'.steps := by
  induction cs generalizing b with
  | nil =>
    cases h
    exact List.prefix_rfl
  | cons c cs ih =>
    obtain ⟨b₁, hcall, hcalls⟩ := calls_cons.mp h
    exact (call_steps hcall ▸ List.prefix_append _ _).trans (ih hcalls)

theorem calls_step {b b' : Builder} {cs : List Call} (h : b.calls cs = .ok b')
    {before behind : List Step} {x : Step} (hsteps : b'.steps = before ++ x :: behind) :
    (∃ rest, b.steps = before ++ x :: rest) ∨
      ∃ pre c post b₀ first rest, cs = pre ++ c :: post ∧ b.calls pre = .ok b₀ ∧
        emitted b₀ c = first ++ x :: rest ∧ before = b₀.steps ++ first := by
  induction cs generalizing b with
  | nil =>
    cases h
    exact .inl ⟨behind, hsteps⟩
  | cons c cs ih =>
    obtain ⟨b₁, hcall, hcalls⟩ := calls_cons.mp h
    rcases ih hcalls with ⟨rest, hb₁⟩ | ⟨pre, d, post, b₀, first, rest, rfl, hpre, hd, hbefore⟩
    · rw [call_steps hcall, List.append_cons] at hb₁
      rcases List.append_eq_append_iff.mp hb₁ with ⟨as, has, hemitted⟩ | ⟨bs, hbs, -⟩
      · rcases List.eq_nil_or_concat as with rfl | ⟨as, y, rfl⟩
        · exact .inl ⟨[], by simpa using has.symm⟩
        · rw [List.concat_eq_append, ← List.append_assoc] at has
          obtain ⟨hbefore, hx⟩ := List.append_inj' has rfl
          cases hx
          exact .inr ⟨[], c, cs, b, as, rest, rfl, rfl, by simp [hemitted], hbefore⟩
      · exact .inl ⟨bs, by simpa using hbs⟩
    · exact .inr ⟨c :: pre, d, post, b₀, first, rest, rfl,
        calls_cons.mpr ⟨b₁, hcall, hpre⟩, hd, hbefore⟩

theorem emitted_expect {b : Builder} {c : Call} {first rest : List Step} {value : Int32}
    {source : ScriptLine} (h : emitted b c = first ++ .expect value source :: rest) :
    ∃ line, c = .expect value line ∧ source = ⟨b.name, line⟩ ∧ first = [] := by
  have hmem : Step.expect value source ∈ emitted b c := by simp [h]
  cases c with
  | flush => simp [emitted, updates] at hmem
  | expect value' line =>
    rw [emitted, List.mem_singleton] at hmem
    cases hmem
    cases first with
    | nil => exact ⟨line, rfl, rfl, rfl⟩
    | cons y first => simp [emitted] at h
  | _ => cases hmem

/-- Only a flush adds an update, and only for a file of the builder. -/
theorem emitted_update {b : Builder} {c : Call} {path contents : String}
    (h : .update path contents ∈ emitted b c) : path ∈ b.files.map OpenFile.path := by
  cases c with
  | flush =>
    simp only [emitted, updates, List.mem_map, List.mem_filter, Step.update.injEq] at h
    obtain ⟨f, ⟨hf, -⟩, rfl, -⟩ := h
    exact List.mem_map_of_mem hf
  | expect value line => simp [emitted] at h
  | _ => cases h

theorem declares?_of_starts {c : Call} (h : c.starts = true) : c.declares? = none := by
  cases c <;> first | rfl | cases h

theorem call_started {b b' : Builder} {c : Call} (h : b.call c = .ok b') :
    b'.started = (b.started || c.starts) := by
  cases c with
  | file path contents =>
    rw [Builder.call] at h
    split at h
    · cases h
    · split at h
      · cases h
      · cases h
        simp [Call.starts]
  | edit path line find replacement =>
    rw [Builder.call] at h
    split at h
    · cases h
    · cases h
      simp [Call.starts]
  | _ =>
    cases h
    simp [Call.starts]

theorem declares?_of_started {b b' : Builder} {c : Call} (h : b.call c = .ok b')
    (hstarted : b.started = true) : c.declares? = none := by
  cases c with
  | file path contents =>
    rw [Builder.call, if_pos hstarted] at h
    cases h
  | _ => rfl

theorem declared_of_started {b b' : Builder} {cs : List Call} (h : b.calls cs = .ok b')
    (hstarted : b.started = true) : declared cs = [] := by
  induction cs generalizing b with
  | nil => rfl
  | cons c cs ih =>
    obtain ⟨b₁, hcall, hcalls⟩ := calls_cons.mp h
    rw [declared, List.filterMap_cons_none (declares?_of_started hcall hstarted)]
    exact ih hcalls (by rw [call_started hcall, hstarted, Bool.true_or])

theorem declared_split {b b' : Builder} {pre post : List Call} {c : Call}
    (h : b.calls (pre ++ c :: post) = .ok b') (hstarts : c.starts = true) :
    declared (pre ++ c :: post) = declared pre := by
  obtain ⟨b₀, -, hrest⟩ := calls_append.mp h
  obtain ⟨b₁, hcall, hpost⟩ := calls_cons.mp hrest
  have hstarted : b₁.started = true := by rw [call_started hcall, hstarts, Bool.or_true]
  rw [List.append_cons, declared_append, declared_concat (declares?_of_starts hstarts),
    declared_of_started hpost hstarted, List.append_nil]

theorem scenario_ok {b : Builder} {s : Scenario} (h : b.scenario = .ok s) :
    s.files = b.files.map (fun f => ⟨f.path, f.initial⟩) ∧ s.steps = b.steps := by
  rw [Builder.scenario] at h
  split at h
  · cases h
  · cases h
    exact ⟨rfl, rfl⟩

theorem Tracks.updates_eq {name : String} {cs : List Call} {b : Builder} (h : Tracks name cs b) :
    updates b.files =
      ((declared cs).filter fun f => (unflushed cs).any (Call.edits f.path)).map
        fun f => .update f.path (f.after cs) := by
  rw [updates, h.files_eq, List.filter_map, List.map_map]
  rfl

/-! ## Visibility -/

/-- **What a session sees.** For calls that are all taken and make a scenario: at each expectation
the updates before it have left every file with the edits up to the last flush before it; each flush
adds one update for every file edited since the flush before, in the order of declaration; updates
are of declared files only; and the files are those declared, in order, each path once. -/
theorem session_visibility {name : String} {cs : List Call} {b : Builder} {s : Scenario}
    (hcalls : Builder.calls { name := name } cs = .ok b) (hbuild : b.scenario = .ok s) :
    (∀ before value source behind, s.steps = before ++ .expect value source :: behind →
      ∃ pre line post b₀, cs = pre ++ .expect value line :: post ∧
        Builder.calls { name := name } pre = .ok b₀ ∧ b₀.steps = before ∧
        source = ⟨name, line⟩ ∧ ∀ f ∈ s.files, f.held before = f.after (flushed pre)) ∧
    (∀ pre post, cs = pre ++ .flush :: post →
      ∃ b₀ b₁, Builder.calls { name := name } pre = .ok b₀ ∧ b₀.call .flush = .ok b₁ ∧
        b₁.steps <+: s.steps ∧
        b₁.steps = b₀.steps ++
          (s.files.filter fun f => (unflushed pre).any (Call.edits f.path)).map
            fun f => .update f.path (f.after pre)) ∧
    (∀ path contents, .update path contents ∈ s.steps → path ∈ s.files.map TrackedFile.path) ∧
    s.files = declared cs ∧ (s.files.map TrackedFile.path).Nodup := by
  have htracks : Tracks name cs b := (Tracks.start name).calls hcalls
  have htracked : ∀ {pre b₀}, Builder.calls { name := name } pre = .ok b₀ → Tracks name pre b₀ :=
    fun h => (Tracks.start name).calls h
  obtain ⟨hfiles, hsteps⟩ := scenario_ok hbuild
  have hdeclared : s.files = declared cs := by
    rw [hfiles, htracks.files_eq, List.map_map]
    exact List.map_id' _
  rw [hsteps, hdeclared]
  refine ⟨?_, ?_, ?_, rfl, htracks.paths_nodup⟩
  · intro before value source behind hsplit
    rcases calls_step hcalls hsplit with ⟨rest, hnil⟩ |
      ⟨pre, c, post, b₀, first, rest, rfl, hpre, hemitted, hbefore⟩
    · simp at hnil
    · obtain ⟨line, rfl, rfl, rfl⟩ := emitted_expect hemitted
      have hpretracks := htracked hpre
      rw [List.append_nil] at hbefore
      refine ⟨pre, line, post, b₀, rfl, hpre, hbefore.symm, by rw [hpretracks.name_eq], ?_⟩
      rw [declared_split hcalls rfl, hbefore]
      exact hpretracks.held_eq
  · rintro pre post rfl
    obtain ⟨b₀, hpre, hrest⟩ := calls_append.mp hcalls
    obtain ⟨b₁, hcall, hpost⟩ := calls_cons.mp hrest
    refine ⟨b₀, b₁, hpre, hcall, calls_steps hpost, ?_⟩
    rw [declared_split hcalls rfl, call_steps hcall, ← (htracked hpre).updates_eq]
    rfl
  · intro path contents hmem
    obtain ⟨before, behind, hsplit⟩ := List.append_of_mem hmem
    rcases calls_step hcalls hsplit with ⟨rest, hnil⟩ |
      ⟨pre, c, post, b₀, first, rest, rfl, hpre, hemitted, -⟩
    · simp at hnil
    · have hmem : Step.update path contents ∈ emitted b₀ c := by simp [hemitted]
      have hpath := emitted_update hmem
      rw [(htracked hpre).files_eq, List.map_map] at hpath
      rw [declared_append, List.map_append]
      exact List.mem_append_left _ hpath

/-- Two edited files, a flush and an edit that no flush follows: the expectation sees the first two
edits, handed over in the order of declaration, and not the third. -/
theorem session_visibility_two_files :
    ∃ b s,
      Builder.calls { name := "u.scn" }
        [.file "a.c" "int a = 0;\n", .file "b.c" "int b = 0;\n", .edit "b.c" 1 "0" "1",
          .edit "a.c" 1 "0" "1", .flush, .edit "a.c" 1 "1" "2", .expect 1 9] = .ok b ∧
      b.scenario = .ok s ∧
      s.steps = [.update "a.c" "int a = 1;\n", .update "b.c" "int b = 1;\n",
        .expect 1 ⟨"u.scn", 9⟩] ∧
      ∃ pre line post b₀, Builder.calls { name := "u.scn" } pre = .ok b₀ ∧
        [.file "a.c" "int a = 0;\n", .file "b.c" "int b = 0;\n", .edit "b.c" 1 "0" "1",
          .edit "a.c" 1 "0" "1", .flush, .edit "a.c" 1 "1" "2", .expect 1 9] =
            pre ++ .expect 1 line :: post ∧
        ∀ f ∈ s.files, f.held b₀.steps = f.after (flushed pre) := by
  have hcalls : Builder.calls { name := "u.scn" }
      [.file "a.c" "int a = 0;\n", .file "b.c" "int b = 0;\n", .edit "b.c" 1 "0" "1",
        .edit "a.c" 1 "0" "1", .flush, .edit "a.c" 1 "1" "2", .expect 1 9] = .ok
      { name := "u.scn"
        files := [⟨"a.c", "int a = 0;\n", "int a = 2;\n", true⟩,
          ⟨"b.c", "int b = 0;\n", "int b = 1;\n", false⟩]
        steps := [.update "a.c" "int a = 1;\n", .update "b.c" "int b = 1;\n",
          .expect 1 ⟨"u.scn", 9⟩]
        started := true } := by decide
  refine ⟨_, _, hcalls, rfl, rfl, ?_⟩
  obtain ⟨hexpect, -⟩ := session_visibility hcalls rfl
  obtain ⟨pre, line, post, b₀, hcs, hpre, hbefore, -, hheld⟩ := hexpect
    [.update "a.c" "int a = 1;\n", .update "b.c" "int b = 1;\n"] 1 ⟨"u.scn", 9⟩ [] rfl
  exact ⟨pre, line, post, b₀, hpre, hcs, hbefore ▸ hheld⟩

end BuildPlan.Scenario
