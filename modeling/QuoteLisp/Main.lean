import QuoteLisp.CommandLine

/-! The program itself: reads files, settings and lines, and prints what a run gives. -/

namespace QuoteLisp

/-- The strings written in a source text, any of which may be the name of a file to load. -/
def mentionedStrings (source : String) : List String :=
  (lex true source.toList).lexemes.filterMap fun lexeme =>
    match lexeme.token with
    | .string literal => some (String.ofList (unquote literal))
    | _ => none

/-- The entry of a file on disk, if it can be read. -/
def readEntry? (path : String) : IO (Option FileEntry) := do
  try
    let bytes ← IO.FS.readBinFile path
    return some (.ofBytes bytes)
  catch _ => return none

/-- Adds files to a folder, and then all files that they mention. -/
partial def gather (folder : Folder) : List String → IO Folder
  | [] => return folder
  | path :: rest => do
    if (folder.files.lookup path).isSome then gather folder rest
    else
      match ← readEntry? path with
      | none => gather folder rest
      | some entry =>
        let mentioned := match entry with
          | .text contents => mentionedStrings contents
          | .binary => []
        gather ⟨(path, entry) :: folder.files⟩ (mentioned ++ rest)

/-- Prints what a run gave and passes its exit status on. -/
def report (result : RunResult) : IO UInt32 := do
  (← IO.getStdout).putStr result.stdout
  (← IO.getStderr).putStr result.stderr
  return UInt32.ofNat result.status

/-- Answers the lines of standard input one at a time, each with the output of its own. -/
partial def answerLines (settings : RawSettings) (folder : Folder) (s : State Empty) : IO UInt32 := do
  let stdout ← IO.getStdout
  let line ← (← IO.getStdin).getLine
  if line.isEmpty then report ⟨0, farewell ++ "\n", ""⟩
  else
    let folder ← gather folder (mentionedStrings line)
    match (settings.machine folder).enterLine line { s with output := "" } with
    | (.ok .next, t) =>
      stdout.putStr t.output
      stdout.flush
      answerLines settings folder t
    | (.ok (.stop code), t) => report (.of (.ok code, t))
    | (.error e, t) => report (.of (.error e, t))

/-- Runs the command line on given arguments. -/
def runMain (args : List String) : IO UInt32 := do
  let settings : RawSettings := ⟨← IO.getEnv "NITROGEN_MAX_POOLS", ← IO.getEnv "NITROGEN_MAX_DEPTH"⟩
  if args.isEmpty then
    (← IO.getStdout).putStr (String.join (banner.map (· ++ "\n")))
    answerLines settings {} (State.initial settings.limits)
  else
    let folder ← gather {} args
    report (runCommand settings folder args "")

end QuoteLisp

/-- The command line. -/
def main (args : List String) : IO UInt32 :=
  QuoteLisp.runMain args
