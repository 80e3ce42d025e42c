import QuoteLisp.Eval.Arithmetic
import QuoteLisp.Eval.Comparison
import QuoteLisp.Eval.Control
import QuoteLisp.Eval.Data
import QuoteLisp.Eval.Definition

/-! What each operation of the language does. -/

namespace QuoteLisp

variable {H : Type}

/-- Prints the texts of the arguments on one line. -/
def printOp (args : List (Value H)) : Eval H (Value H) := do
  Eval.printLine (String.ofList (spaced (renderItems args)))
  pure .ok

/-- A counter as an integer, the largest one if it does not fit. -/
def counter (n : Nat) : Value H :=
  .integer ((exactInt? n).getD Int64.maxValue)

/-- The counters of the pool. -/
def PoolStats.value (stats : PoolStats) : Value H :=
  .qexpr [counter stats.blocksCreated, counter stats.chunksInUse, counter stats.chunksLifetime,
    counter stats.highWatermark]

/-- Runs an operation of the language on arguments. -/
def Primitive.run (folder : Folder) (reduce : Reducer H) (p : Primitive) (args : List (Value H)) :
    Eval H (Value H) :=
  match p with
  | print => printOp args
  | raise => Eval.ofExcept (raiseOp args)
  | exit => Eval.ofExcept (exitOp args)
  | define mode => QuoteLisp.define reduce mode args
  | undefine => QuoteLisp.undefine args
  | lambda => Eval.ofExcept (lambdaOp args)
  | list => pure (.qexpr args)
  | head => Eval.ofExcept (headOp args)
  | tail => Eval.ofExcept (tailOp args)
  | eval => evalOp reduce args
  | join => Eval.ofExcept (joinOp args)
  | concat => Eval.ofExcept (concatOp args)
  | poolStats => Eval.read fun s => s.pool.stats.value
  | arithmetic op => Eval.ofExcept (op.apply args)
  | branch => QuoteLisp.branch reduce args
  | equal => Eval.ofExcept (equalOp args)
  | notEqual => Eval.ofExcept (notEqualOp args)
  | order test => Eval.ofExcept (test.apply args)
  | load => loadOp folder reduce args

end QuoteLisp
