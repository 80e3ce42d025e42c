import QuoteLisp.Proofs.Eval.Alongside
import QuoteLisp.Proofs.Session.ExitStatus
import QuoteLisp.Proofs.Value.RoundTrip

/-! Files that the command line names, and a script that loads them one after the other, do the same. -/

namespace QuoteLisp

/-- The line of a script that loads a file. -/
def loadLine (path : String) : String := "(load " ++ (Value.string path : Value Empty).text ++ ")"

/-- The expression on such a line. -/
def loadCall (path : String) : Value Empty := .sexpr [.symbol "load", .string path]

/-- A file of given lines, whether or not the last of them has an end. -/
def Folder.HasLines (folder : Folder) (path : String) (lines : List String) : Prop :=
  ∃ text, folder.read path = .ok text ∧ linesOf text.toList = lines

section Text

/-- A text without the separator is its only part; otherwise the first part ends at the first separator. -/
theorem splitAtChar_first (separator : Char) (text : List Char) :
    splitAtChar separator text = [text] ∨ ∃ part rest, text = part ++ separator :: rest ∧
      splitAtChar separator text = part :: splitAtChar separator rest := by
  -- A separator in front ends an empty part, and every other character belongs to the first part of what follows it.
  induction text with
  | nil => exact .inl rfl
  | cons c rest ih =>
    by_cases ends : c = separator
    · subst ends
      exact .inr ⟨[], rest, rfl, by simp [splitAtChar]⟩
    · rcases ih with whole | ⟨part, behind, rfl, split⟩
      · exact .inl (by simp [splitAtChar, ends, whole])
      · exact .inr ⟨c :: part, behind, rfl, by simp [splitAtChar, ends, split]⟩

/-- The parts between line ends are the lines, and nothing may stand behind the last end. -/
theorem splitAtChar_of_linesOf {text : List Char} {lines : List String} (found : linesOf text = lines) :
    ∃ tail, (tail = [] ∨ tail = [[]]) ∧ splitAtChar '\n' text = lines.map String.toList ++ tail := by
  subst found
  simp only [linesOf, List.map_map]
  have back : String.toList ∘ String.ofList = id := funext fun _ => String.toList_ofList
  by_cases ended : (splitAtChar '\n' text).getLast? = some []
  · -- An end behind the last line leaves an empty part, which is no line.
    refine ⟨[[]], .inr rfl, ?_⟩
    rw [if_pos ended, back, List.map_id]
    exact (List.dropLast_append_getLast? [] ended).symm
  · exact ⟨[], .inl rfl, by rw [if_neg ended, back, List.map_id, List.append_nil]⟩

/-- Lines are read one after the other. -/
theorem Written.lines {H : Type} {depth : Nat} {parts : List (List Char)} {values : List (List (Value H))}
    (each : List.Forall₂ (Written depth) parts values) {text : List Char} (split : splitAtChar '\n' text = parts) :
    Written depth text values.flatten := by
  -- By induction on the parts: the line end behind a part is a blank between it and the others.
  induction each generalizing text with
  | nil =>
    -- A text has at least one part.
    rcases splitAtChar_first '\n' text with whole | ⟨part, rest, _, found⟩
    · rw [whole] at split
      cases split
    · rw [found] at split
      cases split
  | @cons part value parts values first others ih =>
    rcases splitAtChar_first '\n' text with whole | ⟨part, rest, rfl, found⟩
    · rw [whole] at split
      cases split
      cases others
      simpa using first
    · rw [found] at split
      obtain ⟨rfl, later⟩ := List.cons.inj split
      exact first.blank (by decide) (ih later)

/-- A line is read as the expression on it. -/
theorem written_loadLine (path : String) : Written 127 (loadLine path).toList [loadCall path] := by
  have isName : IsSymbolName "load".toList := by decide
  have legible : Legible (126 + 1) (loadCall path) := by
    refine .sexpr fun item member => ?_
    simp only [List.mem_cons, List.not_mem_nil, or_false] at member
    rcases member with rfl | rfl
    · exact .symbol isName
    · exact .string path
  -- The line is the printed text of its expression.
  have same : (loadLine path).toList = (loadCall path).render := by
    simp only [loadLine, Value.text, String.toList_append, String.toList_ofList]
    rfl
  rw [same]
  exact written_of_legible legible

/-- A file of such lines holds the expressions on them. -/
theorem program_of_loadLines {folder : Folder} {script : String} {paths : List String}
    (lines : folder.HasLines script (paths.map loadLine)) : folder.program script = .ok (paths.map loadCall) := by
  obtain ⟨text, file, found⟩ := lines
  obtain ⟨tail, isTail, split⟩ := splitAtChar_of_linesOf found
  -- Behind the last line end there is nothing to read.
  have last : List.Forall₂ (Written 127) tail (tail.map fun _ => ([] : List (Value Empty))) := by
    rcases isTail with rfl | rfl
    · exact .nil
    · exact .cons .nil .nil
  have front : List.Forall₂ (Written 127) ((paths.map loadLine).map String.toList)
      (paths.map fun path => [loadCall path]) := by
    simp only [List.map_map, List.forall₂_map_left_iff, List.forall₂_map_right_iff, List.forall₂_same]
    exact fun path _ => written_loadLine path
  obtain ⟨nodes, parsed, reads⟩ := (Written.lines (List.rel_append front last) split).parses
  have all : (readAll nodes : List (Value Empty)) = paths.map loadCall := by
    have each : (paths.map fun path => [loadCall path]).flatten = paths.map loadCall := by
      rw [← List.flatMap_def, ← List.map_eq_flatMap]
    rw [reads]
    rcases isTail with rfl | rfl <;> simp [each]
  simp [Folder.program, file, parsed, Node.branch, Node.children, all]

end Text

section Lines

/-- A program gives that it is done, or a wish to quit. -/
theorem value_of_runProgram {H : Type} {reduce : Reducer H} {program : List (Value H)} {value : Value H} {s t : State H}
    (done : runProgram reduce program s = (.ok value, t)) : value = .ok ∨ ∃ code, value = .quit code := by
  -- The values of the expressions are dropped, except for a wish to quit.
  induction program generalizing s with
  | nil =>
    cases done
    exact .inl rfl
  | cons expr others ih =>
    simp only [runProgram, Eval.bind_apply] at done
    cases evaluated : guardedWith reduce expr s with
    | mk outcome u =>
      rw [evaluated] at done
      cases outcome with
      | error e => cases done
      | ok first =>
        cases first with
        | quit code =>
          cases done
          exact .inr ⟨code, rfl⟩
        | _ => exact ih done

/-- A file gives that it is done, or a wish to quit. -/
theorem value_of_loadWith {H : Type} {folder : Folder} {reduce : Reducer H} {path : String} {value : Value H}
    {s t : State H} (done : loadWith folder reduce path s = (.ok value, t)) :
    value = .ok ∨ ∃ code, value = .quit code := by
  cases found : (folder.program path : Except Error (List (Value H))) with
  | error e =>
    rw [loadWith, found] at done
    cases done
  | ok program =>
    rw [loadWith_of_program found] at done
    exact value_of_runProgram done

/-- Nothing that a file gives is an error value, so there is nothing to raise after it. -/
theorem loadWith_raiseError {H : Type} (folder : Folder) (reduce : Reducer H) (path : String) :
    (loadWith folder reduce path >>= raiseError) = loadWith folder reduce path := by
  funext s
  cases loaded : loadWith folder reduce path s with
  | mk outcome t =>
    cases outcome with
    | error e => exact Eval.bind_of_error _ loaded
    | ok value =>
      rw [Eval.bind_of_ok _ loaded]
      rcases value_of_loadWith loaded with rfl | ⟨code, rfl⟩
      · rfl
      · rfl

/-- A string behind a head needs two chunks, and they are free again afterwards. -/
theorem evalOperands_string {reduce : Reducer Empty} (balanced : Reducer.Balanced reduce) (head : Value Empty)
    (text : String) {s : State Empty} (valid : s.pool.Valid) :
    (∃ e t, evalOperands reduce head [.string text] s = (.error e, t) ∧ e.isFatal) ∨
      ∃ pool, evalOperands reduce head [.string text] s = (.ok [head, .string text], { s with pool := pool }) ∧
        s.pool.SameRoom pool := by
  -- The string stands for itself, so nothing happens between the two acquisitions.
  simp only [evalOperands_eq balanced, gatherOperands, gatherFrom, evalWith, Eval.pure_apply]
  cases done : s.pool.acquire head with
  | error e => exact .inl ⟨e, s, rfl, Pool.isFatal_of_acquire done⟩
  | ok placed =>
    obtain ⟨handle, pool⟩ := placed
    cases done' : pool.acquire (.string text) with
    | error e => exact .inl ⟨e, _, by simp only [done']; rfl, Pool.isFatal_of_acquire done'⟩
    | ok placed =>
      have holds := (Pool.stores_of_acquire done).holds.snoc (Pool.stores_of_acquire done')
      have validNow := (valid.acquire done).acquire done'
      exact .inr ⟨_, by simp only [done']; rfl, .of_holds holds valid validNow⟩

/-- Where the name has its value, the expression on a line loads the file, unless the pool is full. -/
theorem reduceVia_load (m : Machine Empty) (stop : Error) {reduce : Reducer Empty}
    (balanced : Reducer.Balanced reduce) (path : String) {s : State Empty} (valid : s.pool.Valid)
    (bound : s.env.get? "load" = some Primitive.load.value) :
    (∃ e t, m.reduceVia (haltingAt .poolStats stop evalOperands) reduce (.symbol "load") [.string path] s =
      (.error e, t) ∧ e.isFatal) ∨
      ∃ pool, m.reduceVia (haltingAt .poolStats stop evalOperands) reduce (.symbol "load") [.string path] s =
        loadWith m.folder reduce path { s with pool := pool } ∧ s.pool.SameRoom pool := by
  have found : evalWith reduce (.symbol "load") s = (.ok Primitive.load.value, s) := by
    show (s.env.lookup "load", s) = _
    rw [Environment.lookup_eq_ok.mpr bound]
  have other : ¬ (Primitive.load.value : Value Empty).Runs .poolStats := by decide
  have applies : m.applyElements reduce [Primitive.load.value, .string path] = loadWith m.folder reduce path :=
    loadWith_raiseError m.folder reduce path
  have called : m.reduceVia (haltingAt .poolStats stop evalOperands) reduce (.symbol "load") [.string path] s =
      (haltingAt .poolStats stop evalOperands reduce Primitive.load.value [.string path] >>=
        m.applyElements reduce) s := by
    rw [Machine.reduceVia, Eval.bind_of_ok _ found]
    rfl
  rw [called]
  -- The name is not the one of the counters, so nothing stops the call once its operand is there.
  rcases evalOperands_string balanced Primitive.load.value path valid with ⟨e, t, failed, fatal⟩ | ⟨pool, done, same⟩
  · exact .inl ⟨e, t, Eval.bind_of_error _ (Eval.bind_of_error _ failed), fatal⟩
  · refine .inr ⟨pool, ?_, same⟩
    have gathered : haltingAt .poolStats stop evalOperands reduce Primitive.load.value [.string path] s =
        (.ok [Primitive.load.value, .string path], { s with pool := pool }) := by
      rw [haltingAt, Eval.bind_of_ok _ done, if_neg other]
      rfl
    rw [Eval.bind_of_ok _ gathered, applies]

variable {stop : Error}

/-- The expression on a line loads the file one level deeper, and otherwise like the file by itself. -/
theorem loadCall_alongside (m : Machine Empty) (fatal : stop.isFatal) (path : String) {shift depth : Nat}
    {s t : State Empty} (alike : Alongside shift depth s t) (bound : s.env.get? "load" = some Primitive.load.value) :
    (alongside shift).Ends depth (alongside shift).Evaluated
      (evalWith (m.reducerHalting .poolStats stop) (loadCall path) s) (m.load path t) := by
  show (alongside shift).Ends depth _
    (m.nestedVia (haltingAt .poolStats stop evalOperands) (m.maxDepth - s.depth) [.symbol "load", .string path] s) _
  generalize left : m.maxDepth - s.depth = levels
  cases levels with
  | zero =>
    -- At the limit the line fails, and that is fatal.
    simp only [Machine.nestedVia, Machine.descend, Eval.bind_apply, Eval.read]
    rw [if_pos (by omega)]
    exact .cut rfl
  | succ levels =>
    have deep := alike.deep
    simp only [Machine.nestedVia, Machine.descend, Eval.bind_apply, Eval.read]
    rw [if_neg (by omega), Eval.deeper_apply]
    have balanced := nestedVia_halting_balanced m .poolStats stop levels
    have call := reduceVia_load m stop balanced path (s := { s with depth := s.depth + 1 }) alike.pools.valid bound
    rcases call with ⟨e, u, failed, ends⟩ | ⟨pool, loads, same⟩
    · rw [failed]
      exact .cut ends
    · rw [loads]
      -- The file is loaded one level further down than where the line stands.
      have inside : Alongside (shift + 1) depth { s with depth := s.depth + 1, pool := pool } t :=
        ⟨alike.env, alike.output, by show s.depth + 1 = _; omega, alike.shallow, same.symm.trans alike.pools,
          alike.formless⟩
      have ends := (alongside_stepsAlike m).loadWith_alike (nestedVia_alongside m fatal levels) path depth _ _ inside
      rw [Machine.load]
      generalize loadWith m.folder _ path { s with depth := s.depth + 1, pool := pool } = r at ends ⊢
      generalize loadWith m.folder _ path t = r' at ends ⊢
      -- Coming back, the first state is again as deep as it was.
      have back : ∀ {u u'}, Alongside (shift + 1) depth u u' →
          Alongside shift depth { u with depth := u.depth - 1 } u' := by
        intro u u' below
        have deeper := below.deep
        exact ⟨below.env, below.output, by show u.depth - 1 = _; omega, below.shallow, below.pools, below.formless⟩
      cases ends with
      | ok result below => exact .ok result (back below)
      | error failed below => exact .error failed (back below)
      | cut ends => exact .cut ends

end Lines

section Runs

variable {stop : Error}

/-- What a line of the script, which may be stopped, and the file that it names come to, from a state each. -/
inductive Beside (m : Machine Empty) (stop : Error) (path : String) (s t : State Empty) : Prop where
  /-- The line fails fatally, and the script with it. -/
  | fails (e : Error) (u : State Empty)
    (script : ∀ more, runProgram (m.reducerHalting .poolStats stop) (loadCall path :: more) s = (.error e, u))
  /-- The line and the file give the same wish to quit. -/
  | quits (code : Int64) (u u' : State Empty) (output : u'.output = u.output)
    (script : ∀ more, runProgram (m.reducerHalting .poolStats stop) (loadCall path :: more) s = (.ok (.quit code), u))
    (files : ∀ rest, m.runFiles (path :: rest) t = (.ok code, u'))
  /-- Both are followed by what comes next, from states that are alike. -/
  | goesOn (u u' : State Empty) (alike : Alongside 0 0 u u')
    (script : ∀ more, runProgram (m.reducerHalting .poolStats stop) (loadCall path :: more) s =
      runProgram (m.reducerHalting .poolStats stop) more u)
    (files : ∀ rest, m.runFiles (path :: rest) t = m.runFiles rest u')

/-- States that are alike stay so when both print a line. -/
theorem Alongside.printed {shift depth : Nat} {s t : State Empty} (alike : Alongside shift depth s t) (line : String) :
    Alongside shift depth (Eval.printLine line s).2 (Eval.printLine line t).2 :=
  ⟨alike.env, congrArg (· ++ line ++ "\n") alike.output, alike.deep, alike.shallow, alike.pools, alike.formless⟩

/-- One line of the script beside one file. -/
theorem line_beside (m : Machine Empty) (fatal : stop.isFatal) (path : String) {s t : State Empty}
    (alike : Alongside 0 0 s t) (bound : s.env.get? "load" = some Primitive.load.value) : Beside m stop path s t := by
  have ends := loadCall_alongside m fatal path alike bound
  -- A fatal failure of the line is the failure of the script, whatever stands behind it.
  have passedOn : ∀ {e u}, evalWith (m.reducerHalting .poolStats stop) (loadCall path) s = (.error e, u) → e.isFatal →
      Beside m stop path s t := by
    intro e u failed isFatal
    refine .fails e u fun more => ?_
    simp [runProgram, guardedWith, Eval.bind_apply, Eval.outcome, failed, isFatal]
  cases evaluated : evalWith (m.reducerHalting .poolStats stop) (loadCall path) s with
  | mk outcome u =>
  cases loaded : m.load path t with
  | mk outcome' u' =>
    rw [evaluated, loaded] at ends
    cases ends with
    | cut isFatal => exact passedOn evaluated isFatal
    | @error e _ _ _ failed after =>
      cases failed
      by_cases isFatal : e.isFatal
      · exact passedOn evaluated isFatal
      · -- Both print the same failure and go on.
        refine .goesOn _ _ (after.printed (Value.error e.message : Value Empty).text) (fun more => ?_) fun rest => ?_
        · simp only [runProgram, guardedWith, Eval.bind_apply, Eval.outcome, evaluated, if_neg isFatal]
          rfl
        · simp only [Machine.runFiles, Eval.bind_apply, Eval.outcome, loaded, if_neg isFatal]
          rfl
    | ok _ after =>
      rcases value_of_loadWith loaded with rfl | ⟨code, rfl⟩
      · refine .goesOn u u' after (fun more => ?_) fun rest => ?_
        · simp only [runProgram, guardedWith, Eval.bind_apply, Eval.outcome, evaluated]
          rfl
        · simp only [Machine.runFiles, Eval.bind_apply, Eval.outcome, loaded]
      · refine .quits code u u' after.output (fun more => ?_) fun rest => ?_
        · simp only [runProgram, guardedWith, Eval.bind_apply, Eval.outcome, evaluated]
          rfl
        · simp only [Machine.runFiles, Eval.bind_apply, Eval.outcome, loaded]
          rfl

/-- The exit code that stands for what a run gives. -/
def Value.exitCode : Value Empty → Int64
  | quit code => code
  | _ => 0

/-- A script that may be stopped beside the files it loads: when the script comes to its end, so do the files, with the
same code and the same output. -/
theorem runFiles_alongside (m : Machine Empty) (fatal : stop.isFatal) (paths : List String) {s t : State Empty}
    (alike : Alongside 0 0 s t)
    (bound : ∀ i < paths.length, ∀ u,
      runProgram (m.reducerHalting .poolStats stop) ((paths.take i).map loadCall) s = (.ok .ok, u) →
        u.env.get? "load" = some Primitive.load.value)
    {value : Value Empty} {u : State Empty}
    (done : runProgram (m.reducerHalting .poolStats stop) (paths.map loadCall) s = (.ok value, u)) :
    ∃ u', m.runFiles paths t = (.ok value.exitCode, u') ∧ u'.output = u.output := by
  -- By induction on the paths: after each line and each file the states are alike again.
  induction paths generalizing s t with
  | nil =>
    cases done
    exact ⟨t, rfl, alike.output⟩
  | cons path rest ih =>
    have here := bound 0 (by simp) s rfl
    rw [List.map_cons] at done
    cases line_beside m fatal path alike here with
    | fails e last script =>
      rw [script] at done
      cases done
    | quits code last last' output script files =>
      rw [script] at done
      cases done
      exact ⟨last', files rest, output⟩
    | goesOn next next' later script files =>
      rw [script] at done
      rw [files]
      refine ih later (fun i inside v reached => ?_) done
      -- A line behind the first one is reached in the whole script when it is reached in the rest of it.
      refine bound (i + 1) (by simpa using inside) v ?_
      rw [List.take_succ_cons, List.map_cons, script]
      exact reached

end Runs

section Command

/-- The name has its value whenever one of the lines that load the files is reached. -/
def Machine.KeepsLoad (m : Machine Empty) (paths : List String) (s : State Empty) : Prop :=
  ∀ i < paths.length, ∀ t, runProgram m.reducer ((paths.take i).map loadCall) s = (.ok .ok, t) →
    t.env.get? "load" = some Primitive.load.value

/-- Nothing that is bound at the start would show the counters to a special form. -/
theorem standardEnvironment_formless :
    (standardEnvironment : Environment (Value Empty)).Everywhere fun part => ¬ part.IsFormOf .poolStats := by
  intro scope member binding inside
  obtain rfl := List.mem_singleton.mp member
  obtain ⟨p, -, rfl⟩ := List.mem_map.mp inside
  show (p.value : Value Empty).Everywhere _
  unfold Primitive.value
  split
  · next isSpecial =>
    -- The one primitive that shows the counters is no special form.
    refine Value.everywhere_of_leaf rfl fun form => ?_
    cases form
    cases isSpecial
  · exact Value.everywhere_of_leaf rfl id

/-- The start of a run is alike to itself. -/
theorem alongside_initial (limits : PoolLimits) : Alongside 0 0 (.initial limits) (.initial limits) where
  env := rfl
  output := rfl
  deep := rfl
  shallow := rfl
  pools := .refl (Pool.valid_of_no_blocks rfl rfl)
  formless := standardEnvironment_formless

variable {settings : RawSettings} {folder : Folder} {stdin : String}

/-- The command line runs the files it names. -/
theorem commandEval_files {m : Machine Empty} {paths : List String} (named : paths ≠ [])
    (noHelp : asksForHelp paths = false) : commandEval m paths stdin = m.runFiles paths := by
  rw [commandEval, noHelp, if_neg (by decide), if_neg (by simpa using named)]

/-- A single file that the command line names, when it comes to its end. -/
theorem runFiles_single {m : Machine Empty} {path : String} {s t : State Empty} {value : Value Empty}
    (loaded : m.load path s = (.ok value, t)) : m.runFiles [path] s = (.ok value.exitCode, t) := by
  simp only [Machine.runFiles, Eval.bind_apply, Eval.outcome, loaded]
  cases value <;> rfl

/-- A script that comes to its end has not failed fatally. -/
theorem not_commandEnds_fatal {script : String} (noHelp : asksForHelp [script] = false) {value : Value Empty}
    {t : State Empty} (loaded : (settings.machine folder).load script (.initial settings.limits) = (.ok value, t))
    (e : Error) : ¬ CommandEnds settings folder [script] stdin (.fatal e) := by
  intro ends
  have failed := ends.outcome
  rw [commandEval_files (by simp) noHelp, runFiles_single loaded] at failed
  cases failed

/-- A script calls what its expressions call. -/
theorem neverCalls_load {m : Machine Empty} {p : Primitive} {script : String} {program : List (Value Empty)}
    (found : folder.program script = .ok program) {s : State Empty}
    (never : m.NeverCalls p (fun reduce => runProgram reduce program) s) :
    m.NeverCalls p (fun reduce => loadWith folder reduce script) s := by
  intro stop fatal
  simp only [loadWith_of_program found]
  exact never stop fatal

/-- A run of a script that does not end with a fatal failure comes to its end. -/
theorem load_of_not_fatal {script : String} (noHelp : asksForHelp [script] = false) {program : List (Value Empty)}
    (found : folder.program script = .ok program)
    (notFatal : ∀ e, ¬ CommandEnds settings folder [script] stdin (.fatal e)) :
    ∃ value t, (settings.machine folder).load script (.initial settings.limits) = (.ok value, t) := by
  cases loaded : (settings.machine folder).load script (.initial settings.limits) with
  | mk outcome t =>
    cases outcome with
    | ok value => exact ⟨value, t, rfl⟩
    | error e =>
      -- Only a fatal failure ends a program, and then the command line ends with it.
      have fatal : e.isFatal := by
        rw [Machine.load_of_program _ found] at loaded
        exact isFatal_of_runProgram loaded
      have failed : (commandEval (settings.machine folder) [script] stdin (.initial settings.limits)).1 = .error e := by
        rw [commandEval_files (by simp) noHelp]
        simp [Machine.runFiles, Eval.bind_apply, Eval.outcome, loaded, fatal]
      obtain ⟨ending, ends⟩ := commandEnds_exists settings folder [script] stdin
      rw [ends.outcome] at failed
      cases ending with
      | fatal e' => exact absurd ends (notFatal e')
      | _ => cases failed

/-- Files and a script that loads them agree. For every list of paths, whether or not there are such files, the command
line with these paths and the command line with one file, on whose lines they are loaded one after the other, end with
the same output, the same messages and the same status; unless the run of the script ends with a fatal failure or calls
the operation that shows the counters of the pool, or the name of the operation that loads files has another value when
one of the lines is reached. -/
theorem files_agree_with_load_script (settings : RawSettings) (folder : Folder) (stdin : String) (paths : List String)
    (named : paths ≠ []) (noHelp : asksForHelp paths = false) (script : String) (noHelp' : asksForHelp [script] = false)
    (lines : folder.HasLines script (paths.map loadLine))
    (notFatal : ∀ e, ¬ CommandEnds settings folder [script] stdin (.fatal e))
    (uncalled : (settings.machine folder).NeverCalls .poolStats (fun reduce => loadWith folder reduce script)
      (.initial settings.limits))
    (bound : (settings.machine folder).KeepsLoad paths (.initial settings.limits)) :
    runCommand settings folder paths stdin = runCommand settings folder [script] stdin := by
  have found := program_of_loadLines lines
  obtain ⟨value, t, loaded⟩ := load_of_not_fatal noHelp' found notFatal
  -- Any fatal failure may stand in the place of a call that is never made.
  have fatal : (Error.depthExceeded 0).isFatal := rfl
  have halted := uncalled (.depthExceeded 0) fatal
  have asProgram : runProgram ((settings.machine folder).reducerHalting .poolStats (.depthExceeded 0))
      (paths.map loadCall) (.initial settings.limits) = (.ok value, t) := by
    rw [← loaded, ← loadWith_of_program found]
    exact halted
  obtain ⟨u, ran, output⟩ := runFiles_alongside _ fatal paths (alongside_initial settings.limits)
    (fun i inside v reached => bound i inside v (runProgram_of_halting _ .poolStats fatal reached)) asProgram
  rw [runCommand, runCommand, commandEval_files named noHelp, commandEval_files (by simp) noHelp', ran,
    runFiles_single loaded, RunResult.of, RunResult.of, output]

section Sample

/-- A script that loads a file that is missing and then one that quits. -/
def loadsTwo : Folder := ⟨[("script", .text "(load \"b\")\n(load \"a\")\n"), ("a", .text "(exit 3)")]⟩

/-- The machine that runs it. -/
def loadsTwoMachine : Machine Empty := RawSettings.machine {} loadsTwo

/-- Whether a run has given a wish to quit. -/
def givesQuit : Except Error (Value Empty) × State Empty → Bool
  | (.ok (.quit _), _) => true
  | _ => false

/-- The script comes to its end, also with a failure in the place of each call that asks for the counters. -/
theorem loadsTwo_quits : ∃ code t, runProgram (loadsTwoMachine.reducerHalting .poolStats (.depthExceeded 0))
    (["b", "a"].map loadCall) (.initial {}) = (.ok (.quit code), t) := by
  have quits : givesQuit (runProgram (loadsTwoMachine.reducerHalting .poolStats (.depthExceeded 0))
    (["b", "a"].map loadCall) (.initial {})) = true := by decide +kernel
  generalize runProgram _ _ _ = r at quits ⊢
  unfold givesQuit at quits
  split at quits
  · exact ⟨_, _, rfl⟩
  · cases quits

/-- Both lines are reached with the operation still bound: at the start, and after the missing file is reported. -/
theorem loadsTwo_keepsLoad : loadsTwoMachine.KeepsLoad ["b", "a"] (.initial {}) := by
  have atStart : (State.initial {} : State Empty).env.get? "load" = some Primitive.load.value := rfl
  have behind : (runProgram loadsTwoMachine.reducer [loadCall "b"] (.initial {})).2.env.get? "load" =
    some Primitive.load.value := rfl
  intro i inside u reached
  have last : (runProgram loadsTwoMachine.reducer ((["b", "a"].take i).map loadCall) (.initial {})).2 = u :=
    congrArg Prod.snd reached
  obtain rfl | rfl : i = 0 ∨ i = 1 := by
    simp only [List.length_cons, List.length_nil] at inside
    omega
  · rw [← last]
    exact atStart
  · rw [← last]
    exact behind

/-- The missing file is reported and passed over, and the code of the other one is the status of both runs. -/
theorem files_agree_with_load_script_quitting :
    runCommand {} loadsTwo ["b", "a"] "" = runCommand {} loadsTwo ["script"] "" ∧
      (runCommand {} loadsTwo ["script"] "").status = 3 := by
  have lines : loadsTwo.HasLines "script" (["b", "a"].map loadLine) := ⟨_, rfl, by decide⟩
  have found := program_of_loadLines lines
  obtain ⟨code, t, done⟩ := loadsTwo_quits
  have loaded : loadsTwoMachine.load "script" (.initial {}) = (.ok (.quit code), t) := by
    rw [Machine.load_of_program _ found]
    exact runProgram_of_halting _ .poolStats rfl done
  have uncalled := neverCalls_load found (neverCalls_of_halting _ .poolStats rfl done)
  exact ⟨files_agree_with_load_script {} loadsTwo "" ["b", "a"] (by simp) rfl "script" rfl lines
    (not_commandEnds_fatal rfl loaded) uncalled loadsTwo_keepsLoad, by decide +kernel⟩

end Sample

end Command

end QuoteLisp
