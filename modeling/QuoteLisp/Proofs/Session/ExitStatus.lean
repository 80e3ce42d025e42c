import Mathlib
import QuoteLisp.CommandLine
import QuoteLisp.Proofs.Session.Loading

/-! How a run of the command line ends, told by the expressions and lines that it evaluates, and what the exit status
says of that: every failure shows, except that a code is lost when its lowest eight bits are zero. -/

namespace QuoteLisp

/-- How a run ends. -/
inductive RunEnd where
  /-- Nothing is left to do. -/
  | finished
  /-- An expression gives a wish to quit. -/
  | quit (code : Int64)
  | fatal (e : Error)

namespace RunEnd

/-- The end that an outcome puts to a run; none where the run goes on. -/
def of? : Except Error (Value Empty) → Option RunEnd
  | .ok (.quit code) => some (.quit code)
  | .ok _ => none
  | .error e => if e.isFatal then some (.fatal e) else none

/-- An end before all is done. -/
def early? : RunEnd → Option RunEnd
  | finished => none
  | ending => some ending

/-- The code or the failure that a run hands to the system. -/
def report : RunEnd → Except Error Int64
  | finished => .ok 0
  | quit code => .ok code
  | fatal e => .error e

/-- A run that has not failed: neither a fatal failure nor a code other than zero has ended it. -/
def IsSuccess : RunEnd → Prop
  | finished => True
  | quit code => code = 0
  | fatal _ => False

/-- A code other than zero of which the system keeps nothing: it fits in 32 bits, and the lowest eight are zero. -/
def IsLost : RunEnd → Prop
  | quit code => code ≠ 0 ∧ -2147483648 ≤ code.toInt ∧ code.toInt ≤ 2147483647 ∧ 256 ∣ code.toInt
  | _ => False

/-- A wish to quit and a fatal failure put an end to a run, and nothing else does. -/
theorem of?_eq_some {outcome : Except Error (Value Empty)} {ending : RunEnd} (ends : of? outcome = some ending) :
    (∃ code, outcome = .ok (.quit code) ∧ ending = .quit code) ∨
      ∃ e, outcome = .error e ∧ e.isFatal ∧ ending = .fatal e := by
  cases outcome with
  | ok value =>
    cases value with
    | quit code =>
      cases ends
      exact .inl ⟨code, rfl, rfl⟩
    | _ => cases ends
  | error e =>
    obtain ⟨fatal, same⟩ := Option.ite_none_right_eq_some.mp ends
    cases same
    exact .inr ⟨e, rfl, fatal, rfl⟩

/-- An outcome that puts an end to a run does so early. -/
theorem early?_of_of? {outcome : Except Error (Value Empty)} {ending : RunEnd} (ends : of? outcome = some ending) :
    ending.early? = some ending := by
  rcases of?_eq_some ends with ⟨code, -, rfl⟩ | ⟨e, -, -, rfl⟩
  · rfl
  · rfl

end RunEnd

/-- How the run of a program ends: at the first of its expressions that puts an end to it, or behind the last. -/
inductive ProgramEnds (m : Machine Empty) : List (Value Empty) → State Empty → RunEnd → Prop where
  | finished (s : State Empty) : ProgramEnds m [] s .finished
  | last {expr : Value Empty} {s : State Empty} {ending : RunEnd} (rest : List (Value Empty))
    (ends : RunEnd.of? (m.eval expr s).1 = some ending) : ProgramEnds m (expr :: rest) s ending
  | next {expr : Value Empty} {rest : List (Value Empty)} {s : State Empty} {ending : RunEnd}
    (goesOn : RunEnd.of? (m.eval expr s).1 = none)
    (later : ProgramEnds m rest (runProgram m.reducer [expr] s).2 ending) : ProgramEnds m (expr :: rest) s ending

/-- How a run of files ends: in the first file whose program is ended early, or behind the last. A file that cannot be read
or parsed is passed over. -/
inductive FilesEnd (m : Machine Empty) : List String → State Empty → RunEnd → Prop where
  | finished (s : State Empty) : FilesEnd m [] s .finished
  | last {path : String} {program : List (Value Empty)} {s : State Empty} {ending : RunEnd} (rest : List String)
    (found : m.folder.program path = .ok program) (ends : ProgramEnds m program s ending) (early : ending ≠ .finished) :
    FilesEnd m (path :: rest) s ending
  | next {path : String} {program : List (Value Empty)} {s : State Empty} {ending : RunEnd} {rest : List String}
    (found : m.folder.program path = .ok program) (through : ProgramEnds m program s .finished)
    (later : FilesEnd m rest (m.runFiles [path] s).2 ending) : FilesEnd m (path :: rest) s ending
  | skip {path : String} {e : Error} {s : State Empty} {ending : RunEnd} {rest : List String}
    (refused : (m.folder.program path : Except Error (List (Value Empty))) = .error e)
    (later : FilesEnd m rest (m.runFiles [path] s).2 ending) : FilesEnd m (path :: rest) s ending

/-- What is entered with a line. -/
def entryOf (line : String) : String := String.ofList (trimBlanks line.toList)

/-- The entries that ask for something about the run and not for an evaluation. -/
def queries : List String := ["", ":help", ":env", ":stats"]

/-- The entries that leave the prompt. -/
def departures : List String := [":quit", ":exit"]

/-- How a run at the prompt ends: with an entry that leaves it, with the first evaluation that puts an end to it, or with
the lines. -/
inductive PromptEnds (m : Machine Empty) : List String → State Empty → RunEnd → Prop where
  | finished (s : State Empty) : PromptEnds m [] s .finished
  | leave {line : String} (rest : List String) (s : State Empty) (asked : entryOf line ∈ departures) :
    PromptEnds m (line :: rest) s .finished
  | last {line : String} {s : State Empty} {ending : RunEnd} (rest : List String)
    (evaluates : entryOf line ∉ queries ++ departures)
    (ends : RunEnd.of? (m.evalText (entryOf line) s).1 = some ending) : PromptEnds m (line :: rest) s ending
  | query {line : String} {s : State Empty} {ending : RunEnd} {rest : List String} (asked : entryOf line ∈ queries)
    (later : PromptEnds m rest (m.enterLine line s).2 ending) : PromptEnds m (line :: rest) s ending
  | next {line : String} {s : State Empty} {ending : RunEnd} {rest : List String}
    (evaluates : entryOf line ∉ queries ++ departures) (goesOn : RunEnd.of? (m.evalText (entryOf line) s).1 = none)
    (later : PromptEnds m rest (m.enterLine line s).2 ending) : PromptEnds m (line :: rest) s ending

/-- How a run of the command line ends: help is only shown, and without files there is the prompt. -/
inductive CommandEnds (settings : RawSettings) (folder : Folder) (args : List String) (stdin : String) : RunEnd → Prop where
  | help (asked : asksForHelp args) : CommandEnds settings folder args stdin .finished
  | prompt {ending : RunEnd} (noHelp : asksForHelp args = false) (noFile : args = [])
    (ends : PromptEnds (settings.machine folder) (linesOf stdin.toList)
      (printLines banner (.initial settings.limits)).2 ending) : CommandEnds settings folder args stdin ending
  | files {ending : RunEnd} (noHelp : asksForHelp args = false) (file : args ≠ [])
    (ends : FilesEnd (settings.machine folder) args (.initial settings.limits) ending) :
    CommandEnds settings folder args stdin ending

variable {m : Machine Empty} {s : State Empty} {ending : RunEnd}

section Programs

/-- Where an expression puts no end to a program, the others follow it. -/
theorem runProgram_of_goesOn {expr : Value Empty} (rest : List (Value Empty))
    (goesOn : RunEnd.of? (m.eval expr s).1 = none) :
    runProgram m.reducer (expr :: rest) s = runProgram m.reducer rest (runProgram m.reducer [expr] s).2 := by
  simp only [runProgram, Eval.bind_apply]
  simp only [Machine.eval] at goesOn
  cases evaluated : guardedWith m.reducer expr s with
  | mk outcome t =>
    rw [evaluated] at goesOn
    cases outcome with
    | error e => simp [RunEnd.of?, isFatal_of_guardedWith evaluated] at goesOn
    | ok value =>
      cases value with
      | quit code => cases goesOn
      | _ => rfl

/-- Where an expression puts an end to a program, that is the outcome of the program. -/
theorem runProgram_of_ends {expr : Value Empty} (rest : List (Value Empty))
    (ends : RunEnd.of? (m.eval expr s).1 = some ending) :
    RunEnd.of? (runProgram m.reducer (expr :: rest) s).1 = some ending := by
  simp only [runProgram, Eval.bind_apply]
  simp only [Machine.eval] at ends
  cases evaluated : guardedWith m.reducer expr s with
  | mk outcome t =>
    rw [evaluated] at ends
    rcases RunEnd.of?_eq_some ends with ⟨code, rfl, -⟩ | ⟨e, rfl, -, -⟩
    · exact ends
    · exact ends

/-- The outcome of a program tells how it has ended. -/
theorem ProgramEnds.outcome {program : List (Value Empty)} (ends : ProgramEnds m program s ending) :
    RunEnd.of? (runProgram m.reducer program s).1 = ending.early? := by
  induction ends with
  | finished s => rfl
  | last rest ends => rw [runProgram_of_ends rest ends, RunEnd.early?_of_of? ends]
  | next goesOn _ ih =>
    rw [runProgram_of_goesOn _ goesOn]
    exact ih

/-- Every program ends. -/
theorem programEnds_exists (m : Machine Empty) (program : List (Value Empty)) (s : State Empty) :
    ∃ ending, ProgramEnds m program s ending := by
  induction program generalizing s with
  | nil => exact ⟨_, .finished s⟩
  | cons expr rest ih =>
    cases ends : RunEnd.of? (m.eval expr s).1 with
    | some ending => exact ⟨ending, .last rest ends⟩
    | none =>
      obtain ⟨ending, later⟩ := ih (runProgram m.reducer [expr] s).2
      exact ⟨ending, .next ends later⟩

end Programs

section Files

/-- A file that cannot be read or parsed is no fatal failure. -/
theorem not_isFatal_of_program {folder : Folder} {path : String} {e : Error}
    (refused : (folder.program path : Except Error (List (Value Empty))) = .error e) : e.isFatal = false := by
  unfold Folder.program at refused
  split at refused
  · cases refused
    rfl
  · split at refused
    · cases refused
      rfl
    · cases refused

/-- A file that does not end a run is followed by the others. -/
theorem runFiles_of_goesOn {path : String} (rest : List String) (goesOn : RunEnd.of? (m.load path s).1 = none) :
    m.runFiles (path :: rest) s = m.runFiles rest (m.runFiles [path] s).2 := by
  simp only [Machine.runFiles, Eval.bind_apply, Eval.outcome]
  cases loaded : m.load path s with
  | mk outcome t =>
    rw [loaded] at goesOn
    cases outcome with
    | ok value =>
      cases value with
      | quit code => cases goesOn
      | _ => rfl
    | error e =>
      have ordinary : e.isFatal = false := by simpa [RunEnd.of?] using goesOn
      simp only [ordinary]
      rfl

/-- A file that ends a run is reported with its end. -/
theorem runFiles_of_ends {path : String} (rest : List String) (ends : RunEnd.of? (m.load path s).1 = some ending) :
    (m.runFiles (path :: rest) s).1 = ending.report := by
  simp only [Machine.runFiles, Eval.bind_apply, Eval.outcome]
  cases loaded : m.load path s with
  | mk outcome t =>
    rw [loaded] at ends
    rcases RunEnd.of?_eq_some ends with ⟨code, rfl, rfl⟩ | ⟨e, rfl, fatal, rfl⟩
    · rfl
    · simp only [if_pos fatal]
      rfl

/-- What files report is how their run has ended. -/
theorem FilesEnd.outcome {paths : List String} (ends : FilesEnd m paths s ending) :
    (m.runFiles paths s).1 = ending.report := by
  induction ends with
  | finished s => rfl
  | @last path program s ending rest found ends early =>
    refine runFiles_of_ends rest ?_
    rw [m.load_of_program found, ends.outcome]
    cases ending with
    | finished => exact absurd rfl early
    | _ => rfl
  | @next path program s ending rest found through later ih =>
    have goesOn : RunEnd.of? (m.load path s).1 = none := by
      rw [m.load_of_program found]
      exact through.outcome
    rw [runFiles_of_goesOn rest goesOn, ih]
  | @skip path e s ending rest refused later ih =>
    have goesOn : RunEnd.of? (m.load path s).1 = none := by
      rw [Machine.load, loadWith, refused]
      simp [Eval.bind_apply, Eval.ofExcept, RunEnd.of?, not_isFatal_of_program refused]
    rw [runFiles_of_goesOn rest goesOn, ih]

/-- Every run of files ends. -/
theorem filesEnd_exists (m : Machine Empty) (paths : List String) (s : State Empty) :
    ∃ ending, FilesEnd m paths s ending := by
  induction paths generalizing s with
  | nil => exact ⟨_, .finished s⟩
  | cons path rest ih =>
    obtain ⟨ending, later⟩ := ih (m.runFiles [path] s).2
    cases found : (m.folder.program path : Except Error (List (Value Empty))) with
    | error e => exact ⟨ending, .skip found later⟩
    | ok program =>
      obtain ⟨inside, ends⟩ := programEnds_exists m program s
      cases inside with
      | finished => exact ⟨ending, .next found ends later⟩
      | quit code => exact ⟨.quit code, .last rest found ends (by simp)⟩
      | fatal e => exact ⟨.fatal e, .last rest found ends (by simp)⟩

end Files

section Prompt

/-- Printing never fails. -/
theorem printLines_eq (lines : List String) (s : State Empty) : printLines lines s = (.ok (), (printLines lines s).2) := by
  induction lines generalizing s with
  | nil => rfl
  | cons line rest ih => exact ih _

/-- An entry that leaves the prompt ends the run with a code of zero. -/
theorem enterLine_of_departure {line : String} (asked : entryOf line ∈ departures) (s : State Empty) :
    (m.enterLine line s).1 = .ok (.stop 0) := by
  have entry : entryOf line = ":quit" ∨ entryOf line = ":exit" := by simpa [departures] using asked
  unfold entryOf at entry
  unfold Machine.enterLine
  rcases entry with entry | entry <;> simp only [entry] <;> rfl

/-- An entry that asks for something is followed by the next line. -/
theorem enterLine_of_query {line : String} (asked : entryOf line ∈ queries) (s : State Empty) :
    (m.enterLine line s).1 = .ok .next := by
  have entry : entryOf line = "" ∨ entryOf line = ":help" ∨ entryOf line = ":env" ∨ entryOf line = ":stats" := by
    simpa [queries] using asked
  have printed : ∀ lines t, ((printLines lines >>= fun _ => pure .next : Eval Empty Reply) t).1 = .ok .next := by
    intro lines t
    rw [Eval.bind_of_ok _ (printLines_eq lines t)]
    rfl
  unfold entryOf at entry
  unfold Machine.enterLine
  rcases entry with entry | entry | entry | entry <;> simp only [entry]
  · rfl
  · exact printed promptHelp s
  · exact printed (environmentReport s.env) s
  · exact printed (statsReport s.pool.limits s.pool.stats) s

/-- Every other entry is evaluated. -/
theorem enterLine_of_evaluates {line : String} (evaluates : entryOf line ∉ queries ++ departures) :
    m.enterLine line = m.showText (entryOf line) := by
  simp only [queries, departures, entryOf, List.cons_append, List.nil_append, List.mem_cons, List.not_mem_nil,
    or_false, not_or] at evaluates
  obtain ⟨blank, help, env, stats, quit, exit⟩ := evaluates
  simp [Machine.enterLine, entryOf, blank, help, env, stats, quit, exit]

/-- An evaluation that puts an end to the run is told to the prompt. -/
theorem enterLines_of_ends {line : String} (rest : List String) (evaluates : entryOf line ∉ queries ++ departures)
    (ends : RunEnd.of? (m.evalText (entryOf line) s).1 = some ending) :
    (m.enterLines (line :: rest) s).1 = ending.report := by
  simp only [Machine.enterLines, enterLine_of_evaluates evaluates, Machine.showText, Eval.bind_apply, Eval.outcome]
  cases evaluated : m.evalText (entryOf line) s with
  | mk outcome t =>
    rw [evaluated] at ends
    rcases RunEnd.of?_eq_some ends with ⟨code, rfl, rfl⟩ | ⟨e, rfl, fatal, rfl⟩
    · rfl
    · simp only [if_pos fatal]
      rfl

/-- After every other evaluation the next line is awaited. -/
theorem enterLine_of_goesOn {line : String} (evaluates : entryOf line ∉ queries ++ departures)
    (goesOn : RunEnd.of? (m.evalText (entryOf line) s).1 = none) : (m.enterLine line s).1 = .ok .next := by
  simp only [enterLine_of_evaluates evaluates, Machine.showText, Eval.bind_apply, Eval.outcome]
  cases evaluated : m.evalText (entryOf line) s with
  | mk outcome t =>
    rw [evaluated] at goesOn
    cases outcome with
    | error e =>
      have ordinary : e.isFatal = false := by simpa [RunEnd.of?] using goesOn
      simp only [ordinary]
      rfl
    | ok value =>
      cases value with
      | quit code => cases goesOn
      | _ => rfl

/-- A line after which the next one is awaited is followed by the others. -/
theorem enterLines_of_next {line : String} (rest : List String) (next : (m.enterLine line s).1 = .ok .next) :
    m.enterLines (line :: rest) s = m.enterLines rest (m.enterLine line s).2 := by
  have answered : m.enterLine line s = (.ok .next, (m.enterLine line s).2) := by rw [← next]
  rw [Machine.enterLines, Eval.bind_of_ok _ answered]

/-- What the prompt reports is how its run has ended. -/
theorem PromptEnds.outcome {lines : List String} (ends : PromptEnds m lines s ending) :
    (m.enterLines lines s).1 = ending.report := by
  induction ends with
  | finished s => rfl
  | @leave line rest s asked =>
    have answered : m.enterLine line s = (.ok (.stop 0), (m.enterLine line s).2) := by
      rw [← enterLine_of_departure asked s]
    rw [Machine.enterLines, Eval.bind_of_ok _ answered]
    rfl
  | last rest evaluates ends => exact enterLines_of_ends rest evaluates ends
  | query asked _ ih => rw [enterLines_of_next _ (enterLine_of_query asked _), ih]
  | next evaluates goesOn _ ih => rw [enterLines_of_next _ (enterLine_of_goesOn evaluates goesOn), ih]

/-- Every run at the prompt ends. -/
theorem promptEnds_exists (m : Machine Empty) (lines : List String) (s : State Empty) :
    ∃ ending, PromptEnds m lines s ending := by
  induction lines generalizing s with
  | nil => exact ⟨_, .finished s⟩
  | cons line rest ih =>
    obtain ⟨ending, later⟩ := ih (m.enterLine line s).2
    by_cases departure : entryOf line ∈ departures
    · exact ⟨_, .leave rest s departure⟩
    · by_cases query : entryOf line ∈ queries
      · exact ⟨ending, .query query later⟩
      · have evaluates : entryOf line ∉ queries ++ departures := by simp [query, departure]
        cases ends : RunEnd.of? (m.evalText (entryOf line) s).1 with
        | some inside => exact ⟨inside, .last rest evaluates ends⟩
        | none => exact ⟨ending, .next evaluates ends later⟩

end Prompt

section Command

variable {settings : RawSettings} {folder : Folder} {args : List String} {stdin : String}

/-- What the command line reports is how its run has ended. -/
theorem CommandEnds.outcome (ends : CommandEnds settings folder args stdin ending) :
    (commandEval (settings.machine folder) args stdin (.initial settings.limits)).1 = ending.report := by
  unfold commandEval
  cases ends with
  | help asked =>
    rw [if_pos asked, Eval.bind_of_ok _ (printLines_eq _ _)]
    rfl
  | prompt noHelp noFile ends =>
    rw [noHelp, noFile, if_neg (by decide), if_pos List.isEmpty_nil, Machine.runPrompt,
      Eval.bind_of_ok _ (printLines_eq _ _)]
    exact ends.outcome
  | files noHelp file ends =>
    rw [noHelp, if_neg (by decide), if_neg (by simpa using file)]
    exact ends.outcome

/-- Every run of the command line ends. -/
theorem commandEnds_exists (settings : RawSettings) (folder : Folder) (args : List String) (stdin : String) :
    ∃ ending, CommandEnds settings folder args stdin ending := by
  cases help : asksForHelp args with
  | true => exact ⟨_, .help help⟩
  | false =>
    by_cases noFile : args = []
    · obtain ⟨ending, ends⟩ := promptEnds_exists (settings.machine folder) (linesOf stdin.toList)
        (printLines banner (.initial settings.limits)).2
      exact ⟨ending, .prompt help noFile ends⟩
    · obtain ⟨ending, ends⟩ := filesEnd_exists (settings.machine folder) args (.initial settings.limits)
      exact ⟨ending, .files help noFile ends⟩

/-- The status of a code is zero only where the lowest eight bits of one that fits in 32 bits are zero. -/
theorem exitStatus_eq_zero (code : Int64) : exitStatus code = 0 ↔
    -2147483648 ≤ code.toInt ∧ code.toInt ≤ 2147483647 ∧ 256 ∣ code.toInt := by
  unfold exitStatus
  by_cases fits : -2147483648 ≤ code.toInt ∧ code.toInt ≤ 2147483647
  · rw [if_pos fits]
    omega
  · rw [if_neg fits]
    omega

/-- The status that a run reports is zero when it has not failed, or when its code is lost. -/
theorem RunEnd.status_of_report (s : State Empty) (ending : RunEnd) :
    (RunResult.of (ending.report, s)).status = 0 ↔ ending.IsSuccess ∨ ending.IsLost := by
  cases ending with
  | finished => simp [RunResult.of, RunEnd.report, RunEnd.IsSuccess, exitStatus]
  | fatal e => simp [RunResult.of, RunEnd.report, RunEnd.IsSuccess, RunEnd.IsLost]
  | quit code =>
    simp only [RunResult.of, RunEnd.report, RunEnd.IsSuccess, RunEnd.IsLost, exitStatus_eq_zero]
    by_cases zero : code = 0
    · subst zero
      simp
    · simp [zero]

/-- The status of a run is zero when it has not failed, or when its code is lost. -/
theorem CommandEnds.status_eq_zero (ends : CommandEnds settings folder args stdin ending) :
    (runCommand settings folder args stdin).status = 0 ↔ ending.IsSuccess ∨ ending.IsLost := by
  have reported := RunEnd.status_of_report
    (commandEval (settings.machine folder) args stdin (.initial settings.limits)).2 ending
  rwa [← ends.outcome] at reported

end Command

/-- The exit status tells success from failure, but for lost codes. However the command line is called, its run ends in
some way: all is done, an expression of a file or a line at the prompt gives a wish to quit, or one fails fatally. The
status is zero exactly when nothing has failed, or when the code of a wish to quit, other than zero, is lost. -/
theorem status_zero_unless_failed_or_lost (settings : RawSettings) (folder : Folder) (args : List String)
    (stdin : String) :
    (∃ ending, CommandEnds settings folder args stdin ending) ∧
      ∀ ending, CommandEnds settings folder args stdin ending →
        ((runCommand settings folder args stdin).status = 0 ↔ ending.IsSuccess ∨ ending.IsLost) :=
  ⟨commandEnds_exists settings folder args stdin, fun _ ends => ends.status_eq_zero⟩

section LostCode

/-- In the first state of a run, the operation for it gives a wish to quit with any code. -/
theorem of?_eval_exit (levels : Nat) (folder : Folder) (code : Int64) :
    RunEnd.of? ((Machine.plain (levels + 1) folder).eval (.sexpr [.symbol "exit", .integer code]) (.initial {})).1 =
      some (.quit code) := by
  have left : (Machine.plain (levels + 1) folder).maxDepth - (State.initial {} : State Empty).depth = levels + 1 := rfl
  simp only [Machine.eval, guardedWith, evalWith, Eval.bind_apply, Eval.outcome, Machine.reducer, left, Machine.nested]
  -- Nothing is reduced on the levels below.
  generalize Machine.nested _ _ levels = inner
  rfl

/-- A file that quits with the code 256. -/
def quitsWith256 : Folder := ⟨[("a", .text "(exit 256)")]⟩

/-- The run of that file ends with its code. -/
theorem commandEnds_quitsWith256 : CommandEnds {} quitsWith256 ["a"] "" (.quit 256) := by
  have file : quitsWith256.read "a" = .ok "(exit 256)" := rfl
  have parses : parse true "(exit 256)" =
      .ok (.branch .program [Bracket.node .round [.leaf .symbol "exit".toList, .leaf .number "256".toList]]) :=
    parse_of_assemble rfl
  have found : quitsWith256.program "a" = .ok [(.sexpr [.symbol "exit", .integer 256] : Value Empty)] := by
    simp only [Folder.program, file, parses]
    rfl
  exact .files rfl (by simp) (.last [] found (.last [] (of?_eval_exit 511 quitsWith256 256)) (by simp))

/-- The code 256 fits in 32 bits, and the lowest eight are zero. -/
theorem isLost_256 : (RunEnd.quit 256).IsLost := by
  unfold RunEnd.IsLost
  decide

/-- A run that a code other than zero has ended may report success. -/
theorem status_zero_of_nonzero_code :
    ¬ ∀ (settings : RawSettings) (folder : Folder) (args : List String) (stdin : String) (ending : RunEnd),
      CommandEnds settings folder args stdin ending →
        ((runCommand settings folder args stdin).status = 0 ↔ ending.IsSuccess) := by
  intro told
  have zero := commandEnds_quitsWith256.status_eq_zero.mpr (.inr isLost_256)
  have success : (256 : Int64) = 0 := (told _ _ _ _ _ commandEnds_quitsWith256).mp zero
  exact absurd success (by decide)

/-- The run of a file that quits with the code 256 reports success. -/
theorem status_zero_unless_failed_or_lost_256 : CommandEnds {} quitsWith256 ["a"] "" (.quit 256) ∧
    (RunEnd.quit 256).IsLost ∧ (runCommand {} quitsWith256 ["a"] "").status = 0 :=
  ⟨commandEnds_quitsWith256, isLost_256,
    ((status_zero_unless_failed_or_lost {} quitsWith256 ["a"] "").2 _ commandEnds_quitsWith256).mpr (.inr isLost_256)⟩

end LostCode

end QuoteLisp
