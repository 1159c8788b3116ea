import BuildPlan.Proofs.DriverStatements

/-!
# What a driver does

The main function of a driver is read from its text by the rules of C, and run against a compiler
that may answer anything. An expression that uses what is not in scope, or calls a null pointer, has
no meaning, and neither has a jump back or into a block. A session, on the other hand, is told by
rules, one for each way in which a step can end. `run_eq_session` says that every driver has a
meaning and its run is a session of the scenario, behind which the compiler's state is freed once.
-/

namespace BuildPlan.Scenario

open CSource (Condition Expression Operand typed)
open Text (toUtf8 unlines)

/-! ## Sessions -/

/-- The array of characters that a text is kept in. -/
def cArrayOf (text : String) : Bytes :=
  toUtf8 text ++ [0]

inductive Value where
  | null
  | integer (n : Int)
  /-- A pointer to characters, by the array that they stand in. -/
  | text (array : Bytes)
  /-- A pointer to an array of pointers. -/
  | pointers (items : List Value)
  | record (fields : List (String × Value))
  /-- The address of a structure. -/
  | reference (fields : List (String × Value))
  | function (name : String)
  /-- The compiler's state. -/
  | context
  /-- A pointer to an entry point. -/
  | entry (address : Nat)
  /-- What nothing may depend on. -/
  | unknown

/-- What a driver asks of the compiler. -/
inductive Request where
  | start (environment : List (String × Value))
  | updateAll
  | update (file contents : Bytes)
  | find (entry : Bytes)
  | call (address : Nat) (args : List Value)
  | free

/-- What the compiler answers; no address is a null pointer. -/
abbrev Request.Answer : Request → Type
  | start _ => Unit
  | updateAll => Bool
  | update _ _ => Bool
  | find _ => Option Nat
  | call _ _ => Int32
  | free => Unit

/-- A compiler: its answer to a request, which may depend on all earlier ones. -/
abbrev Compiler := List Request → (r : Request) → r.Answer

/-- The texts, and a null pointer behind them. -/
def pathArray (items : List String) : List Value :=
  items.map (fun item => .text (cArrayOf item)) ++ [.null]

/-- What the compiler is started with. -/
def environment (s : Scenario) : List (String × Value) :=
  [("include_paths", .pointers (pathArray s.includePaths)),
    ("files", .pointers (pathArray (s.files.map TrackedFile.path))),
    ("dyibicc_include_dir", .text (cArrayOf Driver.includeDir)),
    ("load_file_contents", .function "get_file_by_name"),
    ("get_function_address", .function "get_host_helper_func"), ("output_function", .null),
    ("use_ansi_codes", .integer 0)]

/-- The arguments that an entry point is called with. -/
def entryArguments : List Value :=
  [.integer 1, .pointers [.text (cArrayOf "prog"), .null]]

/-- The steps of a session with the compiler `c`, from the requests before them to all requests and
the result. -/
inductive Takes (c : Compiler) (entry : String) :
    List Request → List Step → List Request → Nat → Prop where
  | done (before : List Request) : Takes c entry before [] before 0
  | updated {before : List Request} {file contents : String} {rest : List Step}
    {all : List Request} {result : Nat}
    (haccepted : c before (.update (cArrayOf file) (cArrayOf contents)) = true)
    (hrest : Takes c entry (before ++ [.update (cArrayOf file) (cArrayOf contents)]) rest all
      result) : Takes c entry before (.update file contents :: rest) all result
  | rejected {before : List Request} {file contents : String} {rest : List Step}
    (hrejected : c before (.update (cArrayOf file) (cArrayOf contents)) = false) :
    Takes c entry before (.update file contents :: rest)
      (before ++ [.update (cArrayOf file) (cArrayOf contents)]) 255
  | noEntry {before : List Request} {value : Int32} {source : ScriptLine} {rest : List Step}
    (hnone : c before (.find (cArrayOf entry)) = none) :
    Takes c entry before (.expect value source :: rest) (before ++ [.find (cArrayOf entry)]) 254
  | met {before : List Request} {value : Int32} {source : ScriptLine} {rest : List Step}
    {all : List Request} {result address : Nat}
    (hfound : c before (.find (cArrayOf entry)) = some address)
    (hvalue : c (before ++ [.find (cArrayOf entry)]) (.call address entryArguments) = value)
    (hrest : Takes c entry (before ++ [.find (cArrayOf entry), .call address entryArguments]) rest
      all result) : Takes c entry before (.expect value source :: rest) all result
  | otherValue {before : List Request} {value : Int32} {source : ScriptLine} {rest : List Step}
    {address : Nat} (hfound : c before (.find (cArrayOf entry)) = some address)
    (hvalue : c (before ++ [.find (cArrayOf entry)]) (.call address entryArguments) ≠ value) :
    Takes c entry before (.expect value source :: rest)
      (before ++ [.find (cArrayOf entry), .call address entryArguments]) 253

/-- A session of a scenario: its requests and its result. -/
inductive Session (c : Compiler) (s : Scenario) : List Request → Nat → Prop where
  | rejected (hrejected : c [.start (environment s)] .updateAll = false) :
    Session c s [.start (environment s), .updateAll] 255
  | built {all : List Request} {result : Nat}
    (haccepted : c [.start (environment s)] .updateAll = true)
    (hsteps : Takes c s.entry [.start (environment s), .updateAll] s.steps all result) :
    Session c s all result

namespace Driver

/-! ## Running statements -/

def request? : String → List Value → Option Request
  | "dyibicc_set_environment", [.reference fields] => some (.start fields)
  | "dyibicc_update", [.context, .null, .null] => some .updateAll
  | "dyibicc_update", [.context, .text file, .text contents] => some (.update file contents)
  | "dyibicc_find_export", [.context, .text entry] => some (.find entry)
  | "dyibicc_free", [.context] => some .free
  | _, _ => none

/-- What a call returns for an answer. -/
def answerValue : (r : Request) → r.Answer → Value
  | .start _, _ => .context
  | .updateAll, accepted => .integer (if accepted then 1 else 0)
  | .update _ _, accepted => .integer (if accepted then 1 else 0)
  | .find _, found => found.elim .null .entry
  | .call _ _, result => .integer result.toInt
  | .free, _ => .unknown

/-- The requests so far, and the variables in scope, the innermost first. -/
structure Machine where
  requests : List Request
  scope : List (String × Value)

def Machine.ask (c : Compiler) (m : Machine) (r : Request) : Value × Machine :=
  (answerValue r (c m.requests r), { m with requests := m.requests ++ [r] })

def Machine.declare (m : Machine) (x : String) (value : Value) : Machine :=
  { m with scope := (x, value) :: m.scope }

/-- The scope with another value for the innermost variable of that name. -/
def assign? (x : String) (value : Value) : List (String × Value) → Option (List (String × Value))
  | [] => none
  | (y, old) :: rest =>
    if y = x then some ((y, value) :: rest) else (assign? x value rest).map ((y, old) :: ·)

/-- The machine behind a block, the variables of which are gone. -/
def Machine.leave (outer inner : Machine) : Machine :=
  { inner with scope := inner.scope.drop (inner.scope.length - outer.scope.length) }

def Machine.operand? (m : Machine) : Operand → Option Value
  | .name x => m.scope.lookup x
  | .integer e => some (.integer e.value)
  | .text bytes => some (.text (bytes ++ [0]))
  | .address x =>
    match m.scope.lookup x with
    | some (.record fields) => some (.reference fields)
    | _ => none

/-- Evaluates an expression. What is printed has no effect on the rest. -/
def Machine.expression? (c : Compiler) (m : Machine) : Expression → Option (Value × Machine)
  | .operand o => do return (← m.operand? o, m)
  | .call f args => do
    let values ← args.mapM m.operand?
    if f = "printf" then return (.unknown, m) else return m.ask c (← request? f values)
  | .callMain pointer args => do
    let values ← args.mapM m.operand?
    match m.scope.lookup pointer with
    | some (.entry address) => return m.ask c (.call address values)
    | _ => none

/-- If a value counts as false. -/
def isFalse? : Value → Option Bool
  | .null => some true
  | .integer n => some (n == 0)
  | .entry _ => some false
  | _ => none

def Machine.condition? (c : Compiler) (m : Machine) : Condition → Option (Bool × Machine)
  | .not value => do
    let (value, m) ← m.expression? c value
    return (← isFalse? value, m)
  | .differs left right => do
    match ← m.operand? left, ← m.operand? right with
    | .integer l, .integer r => return (l != r, m)
    | _, _ => none

/-- Where control is: at the next statement, on the way to a label, or at the end. -/
inductive Flow where
  | next
  | jump (label : String)
  | returned (n : Int)

mutual

def exec (c : Compiler) (m : Machine) : CSource.Statement → Option (Flow × Machine)
  | .characters x bytes => some (.next, m.declare x (.text bytes))
  | .pointers x items => do return (.next, m.declare x (.pointers (← items.mapM m.operand?)))
  | .record x fields => do
    let values ← fields.mapM fun f => do return (f.1, ← m.operand? f.2)
    return (.next, m.declare x (.record values))
  | .declare x value => do
    let (value, m) ← m.expression? c value
    return (.next, m.declare x value)
  | .assign x value => do
    let (value, m) ← m.expression? c value
    return (.next, { m with scope := ← assign? x value m.scope })
  | .evaluate value => do
    let (_, m) ← m.expression? c value
    return (.next, m)
  | .goto label => some (.jump label, m)
  | .label _ => some (.next, m)
  | .giveBack value => do
    match ← m.operand? value with
    | .integer n => return (.returned n, m)
    | _ => none
  | .block body => do
    let (flow, inner) ← execAll c (.next, m) body
    return (flow, m.leave inner)
  | .guard asked body => do
    let (met, m) ← m.condition? c asked
    if met then
      let (flow, inner) ← execAll c (.next, m) body
      return (flow, m.leave inner)
    else return (.next, m)

/-- Runs statements from where control is; on the way to a label all others are passed over. -/
def execAll (c : Compiler) : Flow × Machine → List CSource.Statement → Option (Flow × Machine)
  | r, [] => some r
  | (.next, m), st :: rest => do execAll c (← exec c m st) rest
  | (.jump label, m), .label x :: rest =>
    execAll c (if x = label then .next else .jump label, m) rest
  | r, _ :: rest => execAll c r rest

end

/-- The names that the main function finds in the rest of the driver and its headers. -/
def globals : List (String × Value) :=
  [("NULL", .null), ("false", .integer 0), ("get_file_by_name", .function "get_file_by_name"),
    ("get_host_helper_func", .function "get_host_helper_func")]

/-- Runs a main function: all requests in order, and what it returns. -/
def run (c : Compiler) (body : List CSource.Statement) : Option (List Request × Int) := do
  match ← execAll c (.next, ⟨[], globals⟩) body with
  | (.returned n, m) => return (m.requests, n)
  | _ => none

variable {c : Compiler} {m : Machine} {s : Scenario} {before : List Request}

theorem execAll_next {st : CSource.Statement} {r : Flow × Machine} (h : exec c m st = some r)
    (rest : List CSource.Statement) : execAll c (.next, m) (st :: rest) = execAll c r rest := by
  rw [execAll, h, Option.bind_eq_bind, Option.bind_some]

theorem execAll_append (r : Flow × Machine) (front back : List CSource.Statement) :
    execAll c r (front ++ back) = (execAll c r front).bind fun r => execAll c r back := by
  induction front generalizing r with
  | nil => cases r with | mk flow m => simp [execAll]
  | cons st front ih =>
    obtain ⟨flow, m⟩ := r
    cases flow with
    | next =>
      simp only [List.cons_append, execAll, Option.bind_eq_bind, ih]
      cases exec c m st <;> rfl
    | jump label => cases st <;> simp only [List.cons_append, execAll, ih]
    | returned n => simp only [List.cons_append, execAll, ih]

/-! ## The parts of a main function -/

def mainScope (s : Scenario) (result : Int) : List (String × Value) :=
  [("final_result", .integer result), ("ctx", .context), ("env_data", .record (environment s)),
    ("input_paths", .pointers (pathArray (s.files.map TrackedFile.path))),
    ("include_paths", .pointers (pathArray s.includePaths))] ++ globals

theorem length_assign? {x : String} {value : Value} {scope scope' : List (String × Value)}
    (h : assign? x value scope = some scope') : scope'.length = scope.length := by
  induction scope generalizing scope' with
  | nil => cases h
  | cons v scope ih =>
    obtain ⟨y, old⟩ := v
    rw [assign?] at h
    split_ifs at h
    · rw [← Option.some.inj h, List.length_cons, List.length_cons]
    · obtain ⟨rest, hrest, rfl⟩ := Option.map_eq_some_iff.mp h
      rw [List.length_cons, List.length_cons, ih hrest]

theorem mapM_items (items : List String) (hnull : m.scope.lookup "NULL" = some .null) :
    (items.map (fun item => Operand.text (toUtf8 item)) ++ [Operand.name "NULL"]).mapM m.operand? =
      some (pathArray items) := by
  induction items with
  | nil => simp [Machine.operand?, hnull, pathArray]
  | cons item items ih =>
    rw [List.map_cons, List.cons_append, List.mapM_cons, ih]
    rfl

theorem exec_arraySource (x : String) (items : List String)
    (hnull : m.scope.lookup "NULL" = some .null) :
    exec c m (arraySource x items) = some (.next, m.declare x (.pointers (pathArray items))) := by
  rw [arraySource, exec, mapM_items items hnull]
  rfl

theorem execAll_setup (c : Compiler) (s : Scenario) :
    execAll c (.next, ⟨[], globals⟩) (setupSource s) =
      some (.next, ⟨[.start (environment s)], mainScope s 0⟩) := by
  rw [setupSource, execAll_next (exec_arraySource _ _ rfl), execAll_next (exec_arraySource _ _ rfl)]
  rfl

theorem execAll_tail (c : Compiler) (s : Scenario) (before : List Request) (result : Int)
    {flow : Flow} (hflow : flow = .next ∨ flow = .jump "fail") :
    execAll c (flow, ⟨before, mainScope s result⟩) tailSource =
      some (.returned result, ⟨before ++ [.free], mainScope s result⟩) := by
  rcases hflow with rfl | rfl <;> rfl

theorem exec_print {args : List Operand} {values : List Value}
    (h : args.mapM m.operand? = some values) :
    exec c m (.evaluate (.call "printf" args)) = some (.next, m) := by
  rw [exec, Machine.expression?, h]
  rfl

theorem exec_assign {x : String} {e : CSource.Typed} {scope : List (String × Value)}
    (h : assign? x (.integer e.value) m.scope = some scope) :
    exec c m (.assign x (.operand (.integer e))) = some (.next, ⟨m.requests, scope⟩) := by
  rw [exec]
  simp only [Machine.expression?, Machine.operand?, Option.pure_def, Option.bind_eq_bind,
    Option.bind_some, h]

/-- What comes of a failure that is asked for: if it is there, its result is set, and control is on
the way to the end. -/
theorem exec_failure (f : Failure) (failed : Bool) (scope : List (String × Value)) {m' : Machine}
    {printed : List Value} (hasked : m.condition? c f.asked = some (failed, m'))
    (hprinted : f.printed.mapM m'.operand? = some printed)
    (hassign : assign? "final_result" (.integer f.result) m'.scope = some scope) :
    exec c m f.source =
      some (if failed then (.jump "fail", ⟨m'.requests, scope⟩) else (.next, m')) := by
  have hbody : execAll c (.next, m') [.evaluate (.call "printf" f.printed),
      .assign "final_result" (.operand (.integer (typed f.result))), .goto "fail"] =
      some (.jump "fail", ⟨m'.requests, scope⟩) := by
    rw [execAll_next (exec_print hprinted), execAll_next (exec_assign hassign)]
    rfl
  have hleave : m'.leave ⟨m'.requests, scope⟩ = ⟨m'.requests, scope⟩ := by
    simp [Machine.leave, length_assign? hassign]
  rw [Failure.source, exec, hasked]
  cases failed <;> simp [hbody, hleave]

/-! ## Blocks and steps -/

theorem assign?_finalResult {inner : List (String × Value)}
    (h : ∀ v ∈ inner, v.1 ≠ "final_result") (s : Scenario) (result : Int) :
    assign? "final_result" (.integer result) (inner ++ mainScope s 0) =
      some (inner ++ mainScope s result) := by
  induction inner with
  | nil => rfl
  | cons v inner ih =>
    obtain ⟨hv, hinner⟩ := List.forall_mem_cons.mp h
    rw [List.cons_append, assign?, if_neg hv, ih hinner]
    rfl

theorem exec_blockSource {block : List Statement} (inner : List (String × Value)) {result : Int}
    {flow : Flow} {after : List Request}
    (h : execAll c (.next, ⟨before, mainScope s 0⟩) (block.flatMap Statement.source) =
      some (flow, ⟨after, inner ++ mainScope s result⟩)) :
    exec c ⟨before, mainScope s 0⟩ (blockSource block) =
      some (flow, ⟨after, mainScope s result⟩) := by
  have hlength : (mainScope s result).length = (mainScope s 0).length := rfl
  rw [blockSource, exec, h]
  simp [Machine.leave, hlength]

theorem exec_guardedCall (f : Failure) (inner : List (String × Value)) {function : String}
    {args : List Operand} {values printed : List Value} {r : Request} {failed : Bool}
    (hasked : f.asked = .not (.call function args)) (hfunction : function ≠ "printf")
    (hargs : args.mapM (Machine.operand? ⟨before, inner ++ mainScope s 0⟩) = some values)
    (hrequest : request? function values = some r)
    (hanswer : isFalse? (answerValue r (c before r)) = some failed)
    (hprinted : ∀ m, f.printed.mapM (Machine.operand? m) = some printed)
    (hinner : ∀ v ∈ inner, v.1 ≠ "final_result") :
    exec c ⟨before, inner ++ mainScope s 0⟩ f.source =
      some (if failed then (.jump "fail", ⟨before ++ [r], inner ++ mainScope s f.result⟩)
        else (.next, ⟨before ++ [r], inner ++ mainScope s 0⟩)) := by
  refine exec_failure f failed _ ?_ (hprinted _) (assign?_finalResult hinner s f.result)
  rw [hasked, Machine.condition?, Machine.expression?, hargs]
  simp [hfunction, hrequest, Machine.ask, hanswer]

theorem exec_initialUpdate (c : Compiler) (s : Scenario) (before : List Request) :
    exec c ⟨before, mainScope s 0⟩ Failure.initialUpdate.source =
      some (if c before .updateAll then (.next, ⟨before ++ [.updateAll], mainScope s 0⟩)
        else (.jump "fail", ⟨before ++ [.updateAll], mainScope s 255⟩)) := by
  have hanswer : isFalse? (answerValue .updateAll (c before .updateAll)) =
      some (!c before .updateAll) := by
    cases c before .updateAll <;> rfl
  refine (exec_guardedCall .initialUpdate [] rfl (by decide) rfl rfl hanswer (fun _ => rfl)
    (by simp)).trans ?_
  cases c before .updateAll <;> rfl

theorem bufferName_ne {x : String} (hx : x.toList[1]? ≠ some 'o') (index : Nat) :
    x ≠ bufferName index := by
  rintro rfl
  exact hx (by rw [bufferName, String.toList_append]; rfl)

theorem exec_update (c : Compiler) (s : Scenario) (before : List Request) (index : Nat)
    (file contents : String) :
    exec c ⟨before, mainScope s 0⟩ (blockSource (statements s.entry index (.update file contents))) =
      some (if c before (.update (cArrayOf file) (cArrayOf contents)) then
          (.next, ⟨before ++ [.update (cArrayOf file) (cArrayOf contents)], mainScope s 0⟩)
        else (.jump "fail",
          ⟨before ++ [.update (cArrayOf file) (cArrayOf contents)], mainScope s 255⟩)) := by
  let inner : List (String × Value) := [(bufferName index, .text (cArrayOf contents))]
  let r : Request := .update (cArrayOf file) (cArrayOf contents)
  have hctx : ("ctx" == bufferName index) = false := by
    simpa using bufferName_ne (x := "ctx") (by decide) index
  have hanswer : isFalse? (answerValue r (c before r)) = some (!c before r) := by
    show isFalse? (.integer (if c before r then 1 else 0)) = _
    cases c before r <;> rfl
  have hargs : [Operand.name "ctx", .text (toUtf8 file), .name (bufferName index)].mapM
      (Machine.operand? ⟨before, inner ++ mainScope s 0⟩) =
      some [.context, .text (cArrayOf file), .text (cArrayOf contents)] := by
    simp [Machine.operand?, List.lookup_cons, hctx, mainScope, cArrayOf, inner]
  have hinner : ∀ v ∈ inner, v.1 ≠ "final_result" := by
    simpa [inner] using (bufferName_ne (x := "final_result") (by decide) index).symm
  have hguard := exec_guardedCall (.update file (bufferName index)) inner rfl (by decide) hargs
    rfl hanswer (fun _ => rfl) hinner
  have hbuffer : exec c ⟨before, mainScope s 0⟩
      (.characters (bufferName index) (toUtf8 contents ++ [0])) =
      some (.next, ⟨before, inner ++ mainScope s 0⟩) := rfl
  have hblock : (statements s.entry index (.update file contents)).flatMap Statement.source =
      [.characters (bufferName index) (toUtf8 contents ++ [0]),
        (Failure.update file (bufferName index)).source] := rfl
  cases haccepted : c before r
  all_goals
    rw [haccepted] at hguard
    refine exec_blockSource inner ?_
    rw [hblock, execAll_next hbuffer, execAll_next hguard]
    rfl

theorem exec_findEntry (c : Compiler) (s : Scenario) (before : List Request) (entry : String) :
    exec c ⟨before, mainScope s 0⟩
      (.declare "entry_point" (.call "dyibicc_find_export" [.name "ctx", .text (toUtf8 entry)])) =
      some (.next, ⟨before ++ [.find (cArrayOf entry)],
        [("entry_point", (c before (.find (cArrayOf entry))).elim .null .entry)] ++
          mainScope s 0⟩) := rfl

theorem exec_noEntry (s : Scenario) (index : Nat) (value : Int32) (source : ScriptLine)
    (h : c before (.find (cArrayOf s.entry)) = none) :
    exec c ⟨before, mainScope s 0⟩ (blockSource (statements s.entry index (.expect value source))) =
      some (.jump "fail", ⟨before ++ [.find (cArrayOf s.entry)], mainScope s 254⟩) := by
  let inner : List (String × Value) := [("entry_point", .null)]
  have hfind := exec_findEntry c s before s.entry
  rw [h] at hfind
  have hguard := exec_failure (c := c) (.noEntry source.text s.entry) true
    (inner ++ mainScope s 254)
    (m := ⟨before ++ [.find (cArrayOf s.entry)], inner ++ mainScope s 0⟩) rfl rfl rfl
  refine exec_blockSource inner ?_
  show execAll c _ (.declare _ _ :: (Failure.noEntry source.text s.entry).source :: _) = _
  rw [execAll_next hfind]
  refine (execAll_next hguard _).trans ?_
  rfl

theorem exec_found (s : Scenario) (index : Nat) (value : Int32) (source : ScriptLine)
    {address : Nat} {got : Int32} (hfound : c before (.find (cArrayOf s.entry)) = some address)
    (hgot : c (before ++ [.find (cArrayOf s.entry)]) (.call address entryArguments) = got) :
    exec c ⟨before, mainScope s 0⟩ (blockSource (statements s.entry index (.expect value source))) =
      some (if got = value then (.next, ⟨before ++ [.find (cArrayOf s.entry)] ++
          [.call address entryArguments], mainScope s 0⟩)
        else (.jump "fail", ⟨before ++ [.find (cArrayOf s.entry)] ++
          [.call address entryArguments], mainScope s 253⟩)) := by
  let argv : Value := .pointers [.text (cArrayOf "prog"), .null]
  let outer : List (String × Value) := [("entry_point", .entry address)]
  let inner : List (String × Value) :=
    [("result", .integer got.toInt), ("entry_argv", argv), ("entry_point", .entry address)]
  let asked : List Request := before ++ [.find (cArrayOf s.entry)]
  let called : Machine := ⟨asked ++ [.call address entryArguments], inner ++ mainScope s 0⟩
  have hfind := exec_findEntry c s before s.entry
  rw [hfound] at hfind
  have hthere := exec_failure (c := c) (.noEntry source.text s.entry) false
    (outer ++ mainScope s 254) (m := ⟨asked, outer ++ mainScope s 0⟩) rfl rfl rfl
  have hargv : exec c ⟨asked, outer ++ mainScope s 0⟩
      (.pointers "entry_argv" [.text (toUtf8 "prog"), .name "NULL"]) =
      some (.next, ⟨asked, ("entry_argv", argv) :: (outer ++ mainScope s 0)⟩) := rfl
  have hcall : exec c ⟨asked, ("entry_argv", argv) :: (outer ++ mainScope s 0)⟩
      (.declare "result" (.callMain "entry_point" [.integer (typed 1), .name "entry_argv"])) =
      some (.next, ⟨asked ++ [.call address entryArguments],
        ("result", .integer (c asked (.call address entryArguments)).toInt) ::
          ("entry_argv", argv) :: (outer ++ mainScope s 0)⟩) := rfl
  rw [hgot] at hcall
  have hvalue := exec_failure (c := c) (m := called) (.value source.text value)
    (got.toInt != value.toInt) (inner ++ mainScope s 253) rfl rfl rfl
  have hreport : exec c called (.evaluate (.call "printf" [.text (toUtf8 "%s: OK (%d)\n"),
      .text (toUtf8 source.text), .name "result"])) = some (.next, called) := rfl
  have hblock : execAll c (.next, ⟨before, mainScope s 0⟩)
      ((statements s.entry index (.expect value source)).flatMap Statement.source) =
      execAll c (if got.toInt != value.toInt then
        (.jump "fail", ⟨called.requests, inner ++ mainScope s 253⟩) else (.next, called))
        (Statement.reportValue source.text).source := by
    show execAll c _ (.declare _ _ :: (Failure.noEntry source.text s.entry).source ::
      .pointers _ _ :: .declare _ _ :: (Failure.value source.text value).source :: [.evaluate _]) = _
    rw [execAll_next hfind]
    refine (execAll_next hthere _).trans ((execAll_next hargv _).trans ?_)
    exact (execAll_next hcall _).trans (execAll_next hvalue _)
  by_cases hmet : got = value
  · rw [if_pos hmet]
    refine exec_blockSource inner ?_
    rw [hblock, hmet, bne_self_eq_false]
    exact execAll_next hreport []
  · have hdiffers : (got.toInt != value.toInt) = true := by
      simpa [bne_iff_ne, Int32.toInt_inj] using hmet
    rw [if_neg hmet]
    refine exec_blockSource inner ?_
    rw [hblock, hdiffers]
    rfl

theorem execAll_jump (label : String) (m : Machine) (bs : List (List Statement)) :
    execAll c (.jump label, m) (bs.map blockSource) = some (.jump label, m) := by
  induction bs with
  | nil => rw [List.map_nil, execAll]
  | cons block bs ih => exact ih

/-- The blocks for steps do what the steps say, and free nothing. -/
theorem takes_blocksFrom (c : Compiler) (s : Scenario) (index : Nat) (steps : List Step)
    (before : List Request) : ∃ flow all result, (flow = .next ∨ flow = .jump "fail") ∧
      execAll c (.next, ⟨before, mainScope s 0⟩) ((blocksFrom s.entry index steps).map blockSource) =
        some (flow, ⟨all, mainScope s (result : Nat)⟩) ∧
      Takes c s.entry before steps all result ∧ (.free ∉ before → .free ∉ all) := by
  induction steps generalizing index before with
  | nil => exact ⟨.next, before, 0, .inl rfl, by simp [blocksFrom, execAll], .done before, fun h => h⟩
  | cons step steps ih =>
    rw [blocksFrom, List.map_cons]
    cases step with
    | update file contents =>
      have hblock := exec_update c s before index file contents
      cases haccepted : c before (.update (cArrayOf file) (cArrayOf contents)) with
      | false =>
        rw [haccepted] at hblock
        refine ⟨.jump "fail", _, 255, .inr rfl, ?_, .rejected haccepted, fun h => by simp [h]⟩
        exact (execAll_next hblock _).trans (execAll_jump "fail" _ _)
      | true =>
        rw [haccepted] at hblock
        obtain ⟨flow, all, result, hflow, hrun, htakes, hfree⟩ :=
          ih (index + 1) (before ++ [.update (cArrayOf file) (cArrayOf contents)])
        refine ⟨flow, all, result, hflow, ?_, .updated haccepted htakes, fun h => hfree (by simp [h])⟩
        exact (execAll_next hblock _).trans hrun
    | expect value source =>
      cases hfound : c before (.find (cArrayOf s.entry)) with
      | none =>
        refine ⟨.jump "fail", _, 254, .inr rfl, ?_, .noEntry hfound, fun h => by simp [h]⟩
        exact (execAll_next (exec_noEntry s index value source hfound) _).trans
          (execAll_jump "fail" _ _)
      | some address =>
        have hblock := exec_found s index value source hfound rfl
        rw [List.append_assoc] at hblock
        by_cases hvalue :
            c (before ++ [.find (cArrayOf s.entry)]) (.call address entryArguments) = value
        · rw [if_pos hvalue] at hblock
          obtain ⟨flow, all, result, hflow, hrun, htakes, hfree⟩ := ih (index + 1)
            (before ++ [.find (cArrayOf s.entry), .call address entryArguments])
          refine ⟨flow, all, result, hflow, ?_, .met hfound hvalue htakes,
            fun h => hfree (by simp [h])⟩
          exact (execAll_next hblock _).trans hrun
        · rw [if_neg hvalue] at hblock
          refine ⟨.jump "fail", _, 253, .inr rfl, ?_, .otherValue hfound hvalue,
            fun h => by simp [h]⟩
          exact (execAll_next hblock _).trans (execAll_jump "fail" _ _)

theorem exists_run_mainSource (c : Compiler) (s : Scenario) :
    ∃ requests result, run c (mainSource s) = some (requests ++ [.free], Int.ofNat result) ∧
      Session c s requests result ∧ .free ∉ requests := by
  have hsetup : run c (mainSource s) = (do
      let r ← exec c ⟨[.start (environment s)], mainScope s 0⟩ Failure.initialUpdate.source
      let r ← execAll c r ((blocks s).map blockSource)
      match ← execAll c r tailSource with
      | (.returned n, m) => return (m.requests, n)
      | _ => none) := by
    simp only [run, mainSource, execAll_append, execAll_setup, Option.bind_eq_bind,
      Option.bind_assoc, Option.bind_some, execAll]
  have hfirst := exec_initialUpdate c s [.start (environment s)]
  rw [hsetup]
  cases haccepted : c [.start (environment s)] .updateAll with
  | false =>
    rw [haccepted] at hfirst
    refine ⟨[.start (environment s), .updateAll], 255, ?_, .rejected haccepted, by simp⟩
    simp [hfirst, execAll_jump, execAll_tail c s _ 255 (.inr rfl)]
  | true =>
    rw [haccepted] at hfirst
    obtain ⟨flow, all, result, hflow, hblocks, htakes, hfree⟩ :=
      takes_blocksFrom c s 0 s.steps [.start (environment s), .updateAll]
    refine ⟨all, result, ?_, .built haccepted htakes, hfree (by simp)⟩
    simp [hfirst, blocks, hblocks, execAll_tail c s all result hflow]

/-- **The driver does what the script says.** The text of a driver ends with its main function,
which reads as C statements. Whatever the compiler answers, their run has a meaning: its requests
and what it returns are those of a session of the scenario, and behind them, whether the session got
to its end or not, stands the one request that frees the compiler's state. -/
theorem run_eq_session (c : Compiler) (s : Scenario) :
    ∃ front body, s.driver = unlines (front ++ mainLines s) ∧
      CSource.parse? CSource.mainFunction (unlines (mainLines s)) = some body ∧
      ∃ requests result, run c body = some (requests ++ [.free], Int.ofNat result) ∧
        Session c s requests result ∧ .free ∉ requests :=
  ⟨_, mainSource s, rfl, parse?_mainLines s, exists_run_mainSource c s⟩

end Driver

end BuildPlan.Scenario
