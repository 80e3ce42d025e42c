import QuoteLisp.Eval.Arguments
import QuoteLisp.Eval.State
import QuoteLisp.Machine
import QuoteLisp.Source.Parser
import QuoteLisp.Source.Reader
import QuoteLisp.Value.Printer

/-! Operations that evaluate: quoted lists, branches, and whole files. -/

namespace QuoteLisp

variable {H : Type}

/-- Evaluates a quoted list as an S-expression. -/
def evalOp (reduce : Reducer H) : List (Value H) → Eval H (Value H)
  | [list] => do
    let items ← Eval.ofExcept (expectList "eval" 0 list)
    reduce items
  | args => Eval.fail (.arityMismatch "eval" (.exactly 1) args.length)

/-- Evaluates one of two quoted lists; a condition other than zero chooses the first. The kinds of all
arguments are looked at first, and without a second list the result is an empty one. -/
def branch (reduce : Reducer H) : List (Value H) → Eval H (Value H)
  | [] => Eval.fail (.arityMismatch "if" (.between 2 3) 0)
  | .integer condition :: branches =>
    match branches with
    | [] => Eval.fail (.arityMismatch "if" (.between 2 3) 1)
    | chosen :: others => do
      let chosen ← Eval.ofExcept (expectList "if" 1 chosen)
      -- Both branches must be lists, whichever of them is taken.
      let otherwise ← Eval.ofExcept (others.head?.mapM (expectList "if" 2))
      if condition ≠ 0 then reduce chosen
      else
        match otherwise with
        | some items => reduce items
        | none => pure (.qexpr [])
  | other :: _ => Eval.fail (wrongKind "if" 0 .integer other)

/-- Parses a text and reads it as one S-expression. -/
def readSource (source : String) : Except Error (Value H) :=
  match parse true source with
  | .ok tree => .ok tree.read
  | .error e => .error (.parse e)

/-- The expressions of a file. -/
def Folder.program (folder : Folder) (path : String) : Except Error (List (Value H)) :=
  match folder.read path with
  | .error fault => .error (.loadFailed path (.unreadable fault))
  | .ok source =>
    match parse true source with
    | .error e => .error (.loadFailed path (.refused e))
    | .ok tree => .ok (readAll tree.children)

/-- Evaluates expressions in order: error values are printed and passed over, and a wish to quit ends it. -/
def runProgram (reduce : Reducer H) : List (Value H) → Eval H (Value H)
  | [] => pure .ok
  | expr :: rest => do
    match ← guardedWith reduce expr with
    -- The rest of the program is not evaluated.
    | .quit code => pure (.quit code)
    -- An error ends only its own expression.
    | .error message => do
      Eval.printLine (Value.error message : Value H).text
      runProgram reduce rest
    | _ => runProgram reduce rest

/-- Evaluates the expressions of a file in order. -/
def loadWith (folder : Folder) (reduce : Reducer H) (path : String) : Eval H (Value H) := do
  let program ← Eval.ofExcept (folder.program path)
  runProgram reduce program

/-- Loads the file with a given name. -/
def loadOp (folder : Folder) (reduce : Reducer H) : List (Value H) → Eval H (Value H)
  | [path] => do
    let path ← Eval.ofExcept (expectString "load" 0 path)
    loadWith folder reduce path
  | args => Eval.fail (.arityMismatch "load" (.exactly 1) args.length)

end QuoteLisp
