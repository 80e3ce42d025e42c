import QuoteLisp.Session
import QuoteLisp.Text.Blank

/-! The command line: files evaluated in order, or a prompt that evaluates one line at a time. -/

namespace QuoteLisp

/-- Numbers for the limits, as texts that may be missing or unusable. -/
structure RawSettings where
  maxPools : Option String := none
  maxDepth : Option String := none

/-- What a finished run leaves behind. -/
structure RunResult where
  /-- The exit status as the system reports it, below 256. -/
  status : Nat
  stdout : String
  /-- What is written to standard error, without the log. -/
  stderr : String
  deriving DecidableEq, Repr

/-- A setting as a number: an optional plus sign and digits, small enough for a machine word. -/
def readSetting? (text : String) : Option Nat := do
  let digits := match text.toList with
    | '+' :: rest => rest
    | all => all
  guard (isNumeral digits)
  let n := numeralValue digits
  guard (n ≤ 18446744073709551615)
  return n

/-- The limits of the pool, where a usable setting takes the place of the default. -/
def RawSettings.limits (settings : RawSettings) : PoolLimits :=
  match settings.maxPools.bind readSetting? with
  | some n => { maxBlocks := n }
  | none => {}

/-- The machine of a run, where a usable setting takes the place of the default depth. -/
def RawSettings.machine (settings : RawSettings) (folder : Folder) : Machine Empty :=
  Machine.plain ((settings.maxDepth.bind readSetting?).getD defaultMaxDepth) folder

/-- The exit status for a code: one if the code does not fit in 32 bits, and of the rest the lowest eight bits. -/
def exitStatus (code : Int64) : Nat :=
  if -2147483648 ≤ code.toInt ∧ code.toInt ≤ 2147483647 then (code.toInt % 256).toNat else 1

/-- Prints lines. -/
def printLines : List String → Eval Empty Unit
  | [] => pure ()
  | line :: rest => do
    Eval.printLine line
    printLines rest

/-- What the program says about itself when asked. -/
def usage : List String :=
  ["Usage: nitrogen [FILE]...",
    "",
    "Evaluates each FILE in order, or starts an interactive prompt when none",
    "is given.",
    "",
    "Environment variables:",
    "  NITROGEN_LOG        Log filter (e.g. debug, nitrogen=trace); default warn",
    "  NITROGEN_MAX_POOLS  Maximum number of memory pools",
    "  NITROGEN_MAX_DEPTH  Maximum evaluation depth"]

/-- What the prompt shows first. -/
def banner : List String :=
  ["Nitrogen Version 0.1.0",
    "Enter expressions like: (+ 1 2)",
    "Type :help for more commands, or Ctrl+C to exit.",
    ""]

/-- What the prompt shows when asked for help. -/
def promptHelp : List String :=
  ["Nitrogen interactive prompt:",
    "  :help      - Show this help message",
    "  :env       - Show current environment bindings",
    "  :stats     - Show memory pool statistics",
    "  :quit      - Exit the interpreter",
    "  :exit      - Exit the interpreter",
    "  Ctrl+C     - Exit the interpreter",
    "",
    "Language:",
    "  Numbers: 42, -5, 2.5      Strings: \"text\"      Comments: ; ...",
    "  S-expressions are evaluated: (+ 1 2)",
    "  Q-expressions are data: \x7b1 2 3\x7d",
    "",
    "Examples:",
    "  (def \x7bx y\x7d 1 2)",
    "  (def \x7badd\x7d (\\ \x7ba b\x7d \x7b+ a b\x7d))",
    "  ((add 1) 2)",
    "  ((\\ \x7bfirst & rest\x7d \x7brest\x7d) 1 2 3)",
    "  (if (> x 0) \x7bprint \"positive\"\x7d \x7bprint \"not positive\"\x7d)",
    "  (load \"library.nitrogen\")",
    ""]

/-- What the prompt says last. -/
def farewell : String := "Goodbye!"

/-- The counters of the pool, one on each line. -/
def statsReport (limits : PoolLimits) (stats : PoolStats) : List String :=
  let created := stats.blocksCreated
  let most := limits.maxBlocks
  let size := limits.chunksPerBlock
  let inUse := stats.chunksInUse
  let lifetime := stats.chunksLifetime
  let highest := stats.highWatermark
  [s!"Pools created:      {created} (max {most}, {size} chunks each)",
    s!"Chunks in use:      {inUse}",
    s!"Chunks (lifetime):  {lifetime}",
    s!"High watermark:     {highest}"]

/-- A name as a column of a listing. -/
def column (name : String) : String :=
  "  " ++ name ++ String.ofList (List.replicate (15 - name.length) ' ')

/-- Names in columns, four on each line; the bound is on the number of lines. -/
def columnLines : Nat → List String → List String
  | 0, _ => []
  | _, [] => []
  | bound + 1, names => String.join ((names.take 4).map column) :: columnLines bound (names.drop 4)

/-- A binding of the program's own as a line of a listing. -/
def userLine (root : Scope (Value Empty)) (binding : String × Value Empty) : String :=
  let mark := if root.isProtected binding.1 then " (protected)" else ""
  "  " ++ binding.1 ++ " = " ++ binding.2.text ++ mark

/-- The visible bindings: the names of operations in columns, and then all others with their values. -/
def environmentReport (env : Environment (Value Empty)) : List String :=
  let bindings := env.bindings
  let operations := (bindings.filter (·.2.isOperation)).map (·.1)
  let others := bindings.filter (!·.2.isOperation)
  let total := bindings.length
  let operationCount := operations.length
  let otherCount := others.length
  if bindings.isEmpty then ["Environment is empty."]
  else
    [s!"Environment bindings ({total} total):", ""] ++
      (if operations.isEmpty then []
        else s!"Built-in functions ({operationCount}):" :: columnLines operationCount operations ++ [""]) ++
      (if others.isEmpty then []
        else s!"User-defined values ({otherCount}):" :: others.map (userLine env.root))

/-- What a line of input leads to. -/
inductive Reply where
  /-- The next line is awaited. -/
  | next
  /-- The run ends with an exit code. -/
  | stop (code : Int64)
  deriving DecidableEq, Repr

namespace Machine

/-- Evaluates a line and shows the result. -/
def showText (m : Machine Empty) (line : String) : Eval Empty Reply := do
  match ← Eval.outcome (m.evalText line) with
  -- A wish to quit is granted without a farewell.
  | .ok (.quit code) => pure (.stop code)
  | .ok value => do
    if value.suppressesNewline then pure () else Eval.printLine value.text
    pure .next
  | .error e =>
    if e.isFatal then Eval.fail e
    else do
      Eval.printLine ("Error: " ++ e.message)
      pure .next

/-- Answers one line at the prompt: a command, or an expression. -/
def enterLine (m : Machine Empty) (line : String) : Eval Empty Reply := do
  let entry := String.ofList (trimBlanks line.toList)
  if entry = "" then pure .next
  else if entry = ":help" then do
    printLines promptHelp
    pure .next
  else if entry = ":env" then do
    let env ← Eval.read (·.env)
    printLines (environmentReport env)
    pure .next
  else if entry = ":stats" then do
    let pool ← Eval.read (·.pool)
    printLines (statsReport pool.limits pool.stats)
    pure .next
  else if entry = ":quit" ∨ entry = ":exit" then do
    Eval.printLine farewell
    pure (.stop 0)
  else m.showText entry

/-- Answers lines until one ends the run or there are none left. -/
def enterLines (m : Machine Empty) : List String → Eval Empty Int64
  | [] => do
    Eval.printLine farewell
    pure 0
  | line :: rest => do
    match ← m.enterLine line with
    | .next => m.enterLines rest
    | .stop code => pure code

/-- The prompt on given lines. -/
def runPrompt (m : Machine Empty) (lines : List String) : Eval Empty Int64 := do
  printLines banner
  m.enterLines lines

/-- Loads files in order. A file that fails is reported and passed over, unless the failure is fatal. -/
def runFiles (m : Machine Empty) : List String → Eval Empty Int64
  | [] => pure 0
  | path :: rest => do
    match ← Eval.outcome (m.load path) with
    -- The files after it are not loaded.
    | .ok (.quit code) => pure code
    | .ok _ => m.runFiles rest
    | .error e =>
      if e.isFatal then Eval.fail e
      else do
        Eval.printLine (Value.error e.message : Value Empty).text
        m.runFiles rest

end Machine

/-- The report of a run that ended with an exit code or with a fatal failure.

What is reported on standard error is the fatal failure and nothing else: the lines of the log, which `NITROGEN_LOG` asks for
or which warn of an unusable setting, are left out. -/
def RunResult.of : Except Error Int64 × State Empty → RunResult
  | (.ok code, s) => ⟨exitStatus code, s.output, ""⟩
  | (.error e, s) => ⟨1, s.output, "Fatal: " ++ e.message ++ "\n"⟩

/-- Whether the arguments ask for help. -/
def asksForHelp (args : List String) : Bool :=
  args.any fun arg => arg == "--help" || arg == "-h"

/-- The lines of a text, without their ends; the last line may lack one. -/
def linesOf (text : List Char) : List String :=
  let parts := splitAtChar '\n' text
  let whole := if parts.getLast? = some [] then parts.dropLast else parts
  whole.map String.ofList

/-- What a run is to do: help, files or the prompt. -/
def commandEval (m : Machine Empty) (args : List String) (stdin : String) : Eval Empty Int64 :=
  if asksForHelp args then do
    printLines usage
    pure 0
  else if args.isEmpty then m.runPrompt (linesOf stdin.toList)
  else m.runFiles args

/-- A whole run of the command line. -/
def runCommand (settings : RawSettings) (folder : Folder) (args : List String) (stdin : String) : RunResult :=
  .of (commandEval (settings.machine folder) args stdin (State.initial settings.limits))

end QuoteLisp
